import Mathlib

/-!
# Maps as sorted lists of entries

`SortedMap K V` is the list of the entries of a map in the order of their keys, which is the order
`std::map` is traversed in.  That the keys increase is a field, so a key has one entry and the
entries are the graph of `find?` (`mem_entries_iff`).

* `find?_insert`, `find?_erase`, `find?_filter` — lookup after an update.
* `mem_entries_iff` — traversal visits exactly what lookup finds.
* `takeWhile_entriesFrom` — a scan of an interval finds all its entries.
-/

namespace Swinx

/-- A map with its entries in increasing order of the keys. -/
structure SortedMap (K V : Type*) [LinearOrder K] where
  entries : List (K × V)
  /-- The keys increase. -/
  sorted : entries.Pairwise fun a b => a.1 < b.1

namespace SortedMap

variable {K V : Type*} [LinearOrder K]

/-! ### Lookup -/

/-- The value of a key. -/
def find? (m : SortedMap K V) (k : K) : Option V :=
  (m.entries.find? fun e => e.1 = k).map Prod.snd

/-- The map without entries. -/
def empty : SortedMap K V := ⟨[], .nil⟩

@[simp] theorem find?_empty (k : K) : (empty : SortedMap K V).find? k = none := rfl

/-- **Traversal visits exactly what lookup finds.** -/
theorem mem_entries_iff {m : SortedMap K V} {k : K} {v : V} :
    (k, v) ∈ m.entries ↔ m.find? k = some v := by
  unfold find?
  constructor
  · intro h
    obtain ⟨e, he⟩ : ∃ e, m.entries.find? (fun e => e.1 = k) = some e := by
      rw [← Option.isSome_iff_exists, List.find?_isSome]
      exact ⟨(k, v), h, by simp⟩
    have hk : e.1 = k := by simpa using List.find?_some he
    -- Two entries of one key would be out of order.
    have hev : e = (k, v) := by
      by_contra hne
      have hp : m.entries.Pairwise fun a b => a.1 ≠ b.1 := m.sorted.imp fun h => ne_of_lt h
      have hsymm : Std.Symm fun a b : K × V => a.1 ≠ b.1 := ⟨fun _ _ h => h.symm⟩
      exact hp.forall (List.mem_of_find?_eq_some he) h hne hk
    rw [he, hev]
    rfl
  · intro h
    obtain ⟨e, he, rfl⟩ := Option.map_eq_some_iff.1 h
    have hk : e.1 = k := by simpa using List.find?_some he
    exact hk ▸ List.mem_of_find?_eq_some he

theorem find?_eq_none_iff {m : SortedMap K V} {k : K} :
    m.find? k = none ↔ ∀ v, (k, v) ∉ m.entries := by
  simp only [mem_entries_iff]
  exact ⟨fun h v => by simp [h], fun h => Option.eq_none_iff_forall_ne_some.2 h⟩

/-! ### Updates -/

/-- The entries with `k` set to `v`. -/
def insertEntries (k : K) (v : V) : List (K × V) → List (K × V)
  | [] => [(k, v)]
  | e :: es =>
    if k < e.1 then (k, v) :: e :: es
    else if k = e.1 then (k, v) :: es
    else e :: insertEntries k v es

theorem mem_insertEntries {k : K} {v : V} {e : K × V} {es : List (K × V)}
    (h : e ∈ insertEntries k v es) : e = (k, v) ∨ e ∈ es := by
  induction es with
  | nil => exact .inl (List.mem_singleton.1 h)
  | cons a es ih =>
    unfold insertEntries at h
    split_ifs at h
    · exact List.mem_cons.1 h
    · exact (List.mem_cons.1 h).imp_right (List.mem_cons_of_mem a)
    · rcases List.mem_cons.1 h with rfl | h
      · exact .inr List.mem_cons_self
      · exact (ih h).imp_right (List.mem_cons_of_mem a)

/-- `k` is set to `v`. -/
def insert (m : SortedMap K V) (k : K) (v : V) : SortedMap K V where
  entries := insertEntries k v m.entries
  sorted := by
    obtain ⟨es, hes⟩ := m
    induction es with
    | nil => exact List.pairwise_singleton _ _
    | cons a es ih =>
      obtain ⟨ha, hes'⟩ := List.pairwise_cons.1 hes
      unfold insertEntries
      split_ifs with hlt heq
      · exact List.pairwise_cons.2
          ⟨List.forall_mem_cons.2 ⟨hlt, fun e he => lt_trans hlt (ha e he)⟩, hes⟩
      · exact List.pairwise_cons.2 ⟨fun e he => heq ▸ ha e he, hes'⟩
      · refine List.pairwise_cons.2 ⟨fun e he => ?_, ih hes'⟩
        rcases mem_insertEntries he with rfl | he
        · exact lt_of_le_of_ne (not_lt.1 hlt) (Ne.symm heq)
        · exact ha e he

theorem find?_insert {m : SortedMap K V} {k k' : K} {v : V} :
    (m.insert k v).find? k' = if k' = k then some v else m.find? k' := by
  obtain ⟨es, hes⟩ := m
  simp only [find?, insert]
  clear hes
  induction es with
  | nil => simp only [insertEntries, List.find?_cons, List.find?_nil]; grind
  | cons a es ih =>
    unfold insertEntries
    split_ifs <;> simp only [List.find?_cons] <;> grind

@[simp] theorem find?_insert_self {m : SortedMap K V} {k : K} {v : V} :
    (m.insert k v).find? k = some v := by
  rw [find?_insert, if_pos rfl]

theorem find?_insert_of_ne {m : SortedMap K V} {k k' : K} {v : V} (h : k' ≠ k) :
    (m.insert k v).find? k' = m.find? k' := by
  rw [find?_insert, if_neg h]

/-- The entries for which `p` holds. -/
def filter (m : SortedMap K V) (p : K × V → Bool) : SortedMap K V :=
  ⟨m.entries.filter p, m.sorted.filter p⟩

theorem find?_filter {m : SortedMap K V} {p : K × V → Bool} {k : K} {v : V} :
    (m.filter p).find? k = some v ↔ m.find? k = some v ∧ p (k, v) = true := by
  rw [← mem_entries_iff, ← mem_entries_iff]
  exact List.mem_filter

/-- `k` is taken out. -/
def erase (m : SortedMap K V) (k : K) : SortedMap K V := m.filter fun e => e.1 ≠ k

theorem find?_erase {m : SortedMap K V} {k k' : K} {v : V} :
    (m.erase k).find? k' = some v ↔ m.find? k' = some v ∧ k' ≠ k := by
  rw [erase, find?_filter]
  simp

/-- The first entry whose key is not below `k`. -/
def lowerBound (m : SortedMap K V) (k : K) : Option (K × V) := m.entries.find? fun e => ¬ e.1 < k

theorem exists_lowerBound {m : SortedMap K V} {k k' : K} {v : V} (hv : m.find? k' = some v)
    (hk : ¬ k' < k) : ∃ e, m.lowerBound k = some e ∧ ¬ e.1 < k ∧ ¬ k' < e.1 := by
  have hmem := mem_entries_iff.2 hv
  obtain ⟨e, he⟩ : ∃ e, m.entries.find? (fun e => ¬ e.1 < k) = some e := by
    rw [← Option.isSome_iff_exists, List.find?_isSome]
    exact ⟨(k', v), hmem, by simpa using hk⟩
  obtain ⟨hek, before, after, hsplit, hbefore⟩ := List.find?_eq_some_iff_append.1 he
  refine ⟨e, he, by simpa using hek, ?_⟩
  rw [hsplit] at hmem
  rcases List.mem_append.1 hmem with hmem | hmem
  · have := hbefore _ hmem
    simp only [decide_not, Bool.not_not, decide_eq_true_eq] at this
    exact absurd this hk
  · rcases List.mem_cons.1 hmem with rfl | hmem
    · exact lt_irrefl k'
    · have hsorted := m.sorted
      rw [hsplit] at hsorted
      have hlt := (List.pairwise_cons.1 (List.pairwise_append.1 hsorted).2.1).1 _ hmem
      exact lt_asymm hlt

/-! ### Ranges -/

/-- The entries whose keys are not below `k`. -/
def entriesFrom (m : SortedMap K V) (k : K) : List (K × V) := m.entries.dropWhile fun e => e.1 < k

/-- The first entries with a property of the first ones are all that have it. -/
theorem takeWhile_eq_filter {α : Type*} {p : α → Bool} {l : List α}
    (h : l.Pairwise fun a b => p b = true → p a = true) : l.takeWhile p = l.filter p := by
  induction l with
  | nil => rfl
  | cons a l ih =>
    obtain ⟨ha, hl⟩ := List.pairwise_cons.1 h
    by_cases hp : p a = true
    · rw [List.takeWhile_cons_of_pos hp, List.filter_cons_of_pos hp, ih hl]
    · have hnone : l.filter p = [] := List.filter_eq_nil_iff.2 fun b hb hpb => hp (ha b hb hpb)
      rw [List.takeWhile_cons_of_neg hp, List.filter_cons_of_neg hp, hnone]

theorem not_lt_of_mem_dropWhile {k : K} {es : List (K × V)}
    (h : es.Pairwise fun a b => a.1 < b.1) : ∀ e ∈ es.dropWhile (fun e => e.1 < k), ¬ e.1 < k := by
  induction es with
  | nil => exact fun e he => absurd he List.not_mem_nil
  | cons a es ih =>
    obtain ⟨ha, hes⟩ := List.pairwise_cons.1 h
    by_cases hk : a.1 < k
    · rw [List.dropWhile_cons_of_pos (by simpa using hk)]
      exact ih hes
    · rw [List.dropWhile_cons_of_neg (by simpa using hk)]
      exact List.forall_mem_cons.2
        ⟨hk, fun e he => not_lt.2 ((not_lt.1 hk).trans (ha e he).le)⟩

/-- **A scan from `k` on finds all entries with a property** of an interval that begins at `k`. -/
theorem takeWhile_entriesFrom {m : SortedMap K V} {k : K} {p : K × V → Bool}
    (hlow : ∀ e, p e = true → ¬ e.1 < k)
    (hmid : ∀ e e', ¬ e.1 < k → e.1 < e'.1 → p e' = true → p e = true) :
    (m.entriesFrom k).takeWhile p = m.entries.filter p := by
  have hsplit : m.entries = m.entries.takeWhile (fun e => e.1 < k) ++ m.entriesFrom k :=
    List.takeWhile_append_dropWhile.symm
  have hbefore : (m.entries.takeWhile fun e => e.1 < k).filter p = [] := by
    refine List.filter_eq_nil_iff.2 fun e he hp => hlow e hp ?_
    simpa using List.mem_takeWhile_imp he
  have hsorted : (m.entriesFrom k).Pairwise fun a b => a.1 < b.1 :=
    m.sorted.sublist (List.dropWhile_sublist _)
  have hfrom := not_lt_of_mem_dropWhile (k := k) m.sorted
  rw [hsplit, List.filter_append, hbefore, List.nil_append]
  refine takeWhile_eq_filter ?_
  exact hsorted.imp_of_mem fun ha _ hlt => hmid _ _ (hfrom _ ha) hlt

theorem nodup_keys (m : SortedMap K V) : (m.entries.map Prod.fst).Nodup :=
  List.pairwise_map.2 (m.sorted.imp fun h => ne_of_lt h)

end SortedMap

end Swinx
