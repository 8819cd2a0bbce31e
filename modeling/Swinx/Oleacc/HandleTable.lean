import Swinx.Data.SortedMap

/-!
# The table of accessibility handles

`SAccHandleTable` gives every object that an accessible window answers with a number, by which the
object is found again.  The table keeps the 256 latest handles; the age of a handle is its number,
so the entry to go is the first of the map.  The counter is of 32 bits and starts again from 1.

* `Inv.run` — the table is the end of the record, until the counter starts again.
* `right_iff` — a run is right if and only if it hands out no more handles than the counter has.
-/

namespace Swinx

namespace Oleacc

/-- `WPARAM` -/
abbrev WPARAM := UInt64

structure Entry (Obj : Type*) where
  pUnk : Obj
  wParam : WPARAM

/-- The handles are of type `LONG`. -/
structure SAccHandleTable (Obj : Type*) where
  m_next : ℤ
  m_byHandle : SortedMap ℤ (Entry Obj)

/-- `OLEACC_HANDLE_CAP` -/
def OLEACC_HANDLE_CAP : ℕ := 256

/-- `LONG_MAX` -/
def LONG_MAX : ℤ := 2147483647

/-- `n++` on a `LONG`, in two's complement. -/
def increment (n : ℤ) : ℤ := if n = LONG_MAX then -LONG_MAX - 1 else n + 1

variable {Obj : Type*}

namespace SAccHandleTable

/-- The table as it is made. -/
def init : SAccHandleTable Obj := ⟨1, .empty⟩

/-- The loop that erases the first entry as long as there are more than `cap`. -/
def evict (cap : ℕ) : List (ℤ × Entry Obj) → List (ℤ × Entry Obj)
  | [] => []
  | e :: es => if (e :: es).length > cap then evict cap es else e :: es

theorem evict_eq (cap : ℕ) (es : List (ℤ × Entry Obj)) :
    evict cap es = es.drop (es.length - cap) := by
  induction es with
  | nil => exact List.drop_nil.symm
  | cons e es ih =>
    rw [evict, ih]
    split_ifs with h
    · rw [List.length_cons] at h ⊢
      rw [show es.length + 1 - cap = (es.length - cap) + 1 by omega]
      rfl
    · rw [show (e :: es).length - cap = 0 by omega]
      rfl

/-- `Acquire`: the handle and the table afterwards. -/
def Acquire (t : SAccHandleTable Obj) (pUnk : Obj) (wParam : WPARAM) :
    ℤ × SAccHandleTable Obj :=
  let handle := t.m_next
  let m_next := increment t.m_next
  let m_next := if m_next ≤ 0 then 1 else m_next
  let m := t.m_byHandle.insert handle ⟨pUnk, wParam⟩
  (handle, ⟨m_next, ⟨evict OLEACC_HANDLE_CAP m.entries,
    m.sorted.sublist (evict_eq OLEACC_HANDLE_CAP m.entries ▸ List.drop_sublist _ _)⟩⟩)

/-- `Lookup` -/
def Lookup (t : SAccHandleTable Obj) (handle : ℤ) (wParam : WPARAM) : Option Obj :=
  match t.m_byHandle.find? handle with
  | none => none
  | some e => if e.wParam ≠ wParam then none else some e.pUnk

end SAccHandleTable

/-- A call of the table. -/
inductive Call (Obj : Type*)
  | acquire (pUnk : Obj) (wParam : WPARAM)
  | lookup (handle : ℤ) (wParam : WPARAM)

/-- The call hands out a handle. -/
def Call.issues : Call Obj → Bool
  | .acquire _ _ => true
  | .lookup _ _ => false

/-- The table together with the record of the handles that were handed out. -/
structure Run (Obj : Type*) where
  table : SAccHandleTable Obj
  issued : List (ℤ × Entry Obj)

namespace Run

def init : Run Obj := ⟨.init, []⟩

def step (r : Run Obj) : Call Obj → Run Obj
  | .acquire pUnk wParam =>
    let res := r.table.Acquire pUnk wParam
    ⟨res.2, r.issued ++ [(res.1, ⟨pUnk, wParam⟩)]⟩
  | .lookup _ _ => r

/-- The 256 latest of the record. -/
def recent (r : Run Obj) : List (ℤ × Entry Obj) :=
  r.issued.drop (r.issued.length - OLEACC_HANDLE_CAP)

/-- **The table keeps the latest handles** and finds for each the object it was given. -/
structure Keeps (r : Run Obj) : Prop where
  held : ∀ h, (∃ e, r.table.m_byHandle.find? h = some e) ↔ h ∈ r.recent.map Prod.fst
  found : ∀ h w o, r.table.Lookup h w = some o ↔ (h, ⟨o, w⟩) ∈ r.recent

/-- **The next handle is a good one**: positive and not in the table; what leaves the table for it
is the oldest entry. -/
structure IssuesWell (r : Run Obj) (pUnk : Obj) (wParam : WPARAM) : Prop where
  positive : 0 < (r.table.Acquire pUnk wParam).1
  fresh : r.table.m_byHandle.find? (r.table.Acquire pUnk wParam).1 = none
  oldest : ∀ h e, r.table.m_byHandle.find? h = some e →
    (r.table.Acquire pUnk wParam).2.m_byHandle.find? h = none → r.recent.head? = some (h, e)

end Run

/-- What is reached by some calls. -/
def run (calls : List (Call Obj)) : Run Obj := calls.foldl Run.step .init

/-- **A run is right**: in each of its states the table keeps the latest handles, and each of its
handles is a good one. -/
structure Right (calls : List (Call Obj)) : Prop where
  keeps : ∀ pre post, calls = pre ++ post → (run pre).Keeps
  issues : ∀ pre pUnk wParam post, calls = pre ++ .acquire pUnk wParam :: post →
    (run pre).IssuesWell pUnk wParam

/-! ### Until the counter starts again -/

theorem drop_append_singleton {α : Type*} (cap : ℕ) (l : List α) (x : α) :
    (l.drop (l.length - cap) ++ [x]).drop ((l.drop (l.length - cap) ++ [x]).length - cap) =
      (l ++ [x]).drop ((l ++ [x]).length - cap) := by
  simp only [List.length_append, List.length_drop, List.length_singleton]
  rcases Nat.lt_or_ge l.length cap with h | h
  · rw [Nat.sub_eq_zero_of_le h.le, List.drop_zero, Nat.sub_zero]
  · rw [show l.length - (l.length - cap) + 1 - cap = 1 by omega,
      show l.length + 1 - cap = (l.length - cap) + 1 by omega, ← List.drop_drop,
      List.drop_append_of_le_length (Nat.sub_le _ _)]

theorem insertEntries_of_lt {k : ℤ} {v : Entry Obj} {es : List (ℤ × Entry Obj)}
    (h : ∀ e ∈ es, e.1 < k) : SortedMap.insertEntries k v es = es ++ [(k, v)] := by
  induction es with
  | nil => rfl
  | cons e es ih =>
    have he := h e List.mem_cons_self
    rw [SortedMap.insertEntries, if_neg (by omega), if_neg (by omega),
      ih fun e he => h e (List.mem_cons_of_mem _ he)]
    rfl

theorem insertEntries_of_gt {k : ℤ} {v : Entry Obj} {es : List (ℤ × Entry Obj)}
    (h : ∀ e ∈ es, k < e.1) : SortedMap.insertEntries k v es = (k, v) :: es := by
  cases es with
  | nil => rfl
  | cons e es => rw [SortedMap.insertEntries, if_pos (h e List.mem_cons_self)]

/-- **The invariant** of the first `LONG_MAX` handles: they are numbered from 1, and the table is
the end of the record. -/
structure Run.Inv (r : Run Obj) : Prop where
  next : r.table.m_next = if (r.issued.length : ℤ) = LONG_MAX then 1
    else (r.issued.length : ℤ) + 1
  numbered : ∀ (k : ℕ) e, r.issued[k]? = some e → e.1 = k + 1
  entries : r.table.m_byHandle.entries = r.recent

namespace Run.Inv

variable {r : Run Obj}

theorem mem_recent (h : r.Inv) {e : ℤ × Entry Obj} (he : e ∈ r.recent) :
    (r.issued.length : ℤ) - OLEACC_HANDLE_CAP < e.1 ∧ e.1 ≤ r.issued.length := by
  obtain ⟨i, hi⟩ := List.mem_iff_getElem?.1 he
  unfold recent at hi
  rw [List.getElem?_drop] at hi
  have hnum := h.numbered _ _ hi
  have hlt := (List.getElem?_eq_some_iff.1 hi).1
  omega

theorem step_acquire (h : r.Inv) (hlt : (r.issued.length : ℤ) < LONG_MAX) (pUnk : Obj)
    (wParam : WPARAM) :
    (r.table.Acquire pUnk wParam).1 = r.issued.length + 1 ∧
      (r.step (.acquire pUnk wParam)).Inv := by
  have hnext : r.table.m_next = r.issued.length + 1 := by
    rw [h.next, if_neg (by omega)]
  refine ⟨hnext, ?_, ?_, ?_⟩
  · simp only [step, SAccHandleTable.Acquire, hnext, List.length_append, List.length_singleton,
      increment]
    unfold LONG_MAX at hlt ⊢
    push_cast
    split_ifs <;> omega
  · intro k e hk
    simp only [step] at hk
    rw [List.getElem?_append] at hk
    split_ifs at hk with hlen
    · exact h.numbered k e hk
    · have hzero : k - r.issued.length = 0 := by
        have := (List.getElem?_eq_some_iff.1 hk).1
        rw [List.length_singleton] at this
        omega
      rw [hzero] at hk
      cases hk
      have : k = r.issued.length := by omega
      rw [this]
      exact hnext
  · have hlast : ∀ e ∈ r.recent, e.1 < r.table.m_next := by
      intro e he
      have := (h.mem_recent he).2
      omega
    simp only [step, SAccHandleTable.Acquire, SortedMap.insert, h.entries,
      insertEntries_of_lt hlast, SAccHandleTable.evict_eq]
    exact drop_append_singleton _ _ _

theorem keeps (h : r.Inv) : r.Keeps := by
  have hmem : ∀ k e, r.table.m_byHandle.find? k = some e ↔ (k, e) ∈ r.recent := by
    intro k e
    rw [← SortedMap.mem_entries_iff, h.entries]
  constructor
  · intro k
    rw [List.mem_map]
    constructor
    · rintro ⟨e, he⟩
      exact ⟨_, (hmem k e).1 he, rfl⟩
    · rintro ⟨⟨k', e⟩, he, rfl⟩
      exact ⟨e, (hmem k' e).2 he⟩
  · intro k w o
    rw [← hmem]
    unfold SAccHandleTable.Lookup
    cases r.table.m_byHandle.find? k with
    | none => simp
    | some e =>
      obtain ⟨o', w'⟩ := e
      simp only [Option.some.injEq, Entry.mk.injEq]
      split_ifs with hw
      · simp only [false_iff, not_and]
        exact fun _ => hw
      · rw [not_not] at hw
        simp only [Option.some.injEq, hw, and_true]

/-- The next handle is a good one as long as the counter has numbers. -/
theorem issuesWell (h : r.Inv) (hlt : (r.issued.length : ℤ) < LONG_MAX) (pUnk : Obj)
    (wParam : WPARAM) : r.IssuesWell pUnk wParam := by
  obtain ⟨hhandle, hinv⟩ := h.step_acquire hlt pUnk wParam
  refine ⟨?_, ?_, ?_⟩
  · omega
  · rw [SortedMap.find?_eq_none_iff, h.entries]
    intro v hv
    have := (h.mem_recent hv).2
    omega
  · intro k e hk hnone
    rw [← SortedMap.mem_entries_iff, h.entries] at hk
    have hgone : (k, e) ∉ (r.step (.acquire pUnk wParam)).recent := by
      rw [← hinv.entries]
      exact SortedMap.find?_eq_none_iff.1 hnone e
    unfold recent at hgone hk ⊢
    simp only [step] at hgone
    rw [← drop_append_singleton] at hgone
    -- what is not kept with one more entry is the first
    cases hr : r.issued.drop (r.issued.length - OLEACC_HANDLE_CAP) with
    | nil => rw [hr] at hk; exact absurd hk List.not_mem_nil
    | cons e' es =>
      rw [hr] at hgone hk
      rcases List.mem_cons.1 hk with rfl | hk
      · rfl
      · have hlen : (e' :: es).length ≤ OLEACC_HANDLE_CAP := by
          rw [← hr, List.length_drop]
          omega
        have hdrop : ((e' :: es) ++ [((r.table.Acquire pUnk wParam).1,
            (⟨pUnk, wParam⟩ : Entry Obj))]).length - OLEACC_HANDLE_CAP ≤ 1 := by
          rw [List.length_append, List.length_singleton]
          omega
        have hin := List.mem_append_left [((r.table.Acquire pUnk wParam).1,
          (⟨pUnk, wParam⟩ : Entry Obj))] hk
        refine absurd ?_ hgone
        rcases Nat.le_one_iff_eq_zero_or_eq_one.1 hdrop with h0 | h1
        · rw [h0]
          exact List.mem_cons_of_mem _ hin
        · rw [h1]
          exact hin

end Run.Inv

/-! ### Whole runs -/

/-- How many handles the calls ask for. -/
def issues (calls : List (Call Obj)) : ℕ := calls.countP Call.issues

theorem run_append (calls : List (Call Obj)) (call : Call Obj) :
    run (calls ++ [call]) = (run calls).step call := by
  unfold run
  rw [List.foldl_append]
  rfl

/-- The record has an entry for each handle that was asked for. -/
theorem length_issued (calls : List (Call Obj)) :
    (run calls).issued.length = issues calls := by
  induction calls using List.reverseRecOn with
  | nil => rfl
  | append_singleton calls call ih =>
    unfold issues at ih ⊢
    rw [run_append, List.countP_append, ← ih]
    cases call with
    | acquire pUnk wParam => exact List.length_append
    | lookup handle wParam => rfl

/-- **The invariant holds** as long as the counter has numbers. -/
theorem Inv.run {calls : List (Call Obj)} (h : (issues calls : ℤ) ≤ LONG_MAX) :
    (run calls).Inv := by
  induction calls using List.reverseRecOn with
  | nil =>
    refine ⟨rfl, fun k e hk => ?_, List.drop_nil.symm⟩
    cases hk
  | append_singleton calls call ih =>
    rw [run_append]
    unfold issues at h
    rw [List.countP_append] at h
    have hinv := ih (by unfold issues; omega)
    cases call with
    | acquire pUnk wParam =>
      refine (hinv.step_acquire ?_ pUnk wParam).2
      rw [length_issued]
      unfold issues
      rw [show [Call.acquire pUnk wParam].countP Call.issues = 1 from rfl] at h
      omega
    | lookup handle wParam => exact hinv

theorem exists_split_of_lt_countP {α : Type*} {p : α → Bool} {l : List α} {n : ℕ}
    (h : n < l.countP p) : ∃ pre x post, l = pre ++ x :: post ∧ p x = true ∧ pre.countP p = n := by
  induction l generalizing n with
  | nil => exact absurd h (Nat.not_lt_zero n)
  | cons a l ih =>
    by_cases ha : p a = true
    · rw [List.countP_cons_of_pos ha] at h
      cases n with
      | zero => exact ⟨[], a, l, rfl, ha, rfl⟩
      | succ n =>
        obtain ⟨pre, x, post, rfl, hx, hn⟩ := ih (n := n) (by omega)
        exact ⟨a :: pre, x, post, rfl, hx, by rw [List.countP_cons_of_pos ha, hn]⟩
    · rw [List.countP_cons_of_neg ha] at h
      obtain ⟨pre, x, post, rfl, hx, hn⟩ := ih h
      exact ⟨a :: pre, x, post, rfl, hx, by rw [List.countP_cons_of_neg ha, hn]⟩

/-- **The first handle after the restart is lost**: 1 is the smallest number of the table, so its
entry is the one to go. -/
theorem Run.Inv.not_keeps {r : Run Obj} (h : r.Inv) (hn : (r.issued.length : ℤ) = LONG_MAX)
    (pUnk : Obj) (wParam : WPARAM) : ¬(r.step (.acquire pUnk wParam)).Keeps := by
  intro hkeeps
  have hnext : r.table.m_next = 1 := by
    rw [h.next, if_pos hn]
  have hcap : (OLEACC_HANDLE_CAP : ℤ) = 256 := rfl
  unfold LONG_MAX at hn
  have hfirst : ∀ e ∈ r.recent, r.table.m_next < e.1 := by
    intro e he
    have := (h.mem_recent he).1
    omega
  have hlen : r.recent.length = OLEACC_HANDLE_CAP := by
    unfold recent
    rw [List.length_drop]
    omega
  have hentries : (r.step (.acquire pUnk wParam)).table.m_byHandle.entries = r.recent := by
    simp only [step, SAccHandleTable.Acquire, SortedMap.insert, h.entries,
      insertEntries_of_gt hfirst, SAccHandleTable.evict_eq, List.length_cons, hlen,
      Nat.add_sub_cancel_left, List.drop_one, List.tail_cons]
  have hin : (1 : ℤ) ∈ (r.step (.acquire pUnk wParam)).recent.map Prod.fst := by
    simp only [step, recent, List.length_append, List.length_singleton]
    rw [List.drop_append_of_le_length (by omega), List.map_append]
    exact List.mem_append_right _ (List.mem_singleton.2 hnext.symm)
  obtain ⟨e, he⟩ := (hkeeps.held 1).2 hin
  rw [← SortedMap.mem_entries_iff, hentries] at he
  have := hfirst _ he
  omega

/-- A run that hands out more handles than the counter has is not right. -/
theorem not_right {calls : List (Call Obj)} (h : LONG_MAX < issues calls) : ¬Right calls := by
  intro hr
  have hn : LONG_MAX.toNat < calls.countP Call.issues := by
    unfold issues LONG_MAX at *
    omega
  obtain ⟨pre, call, post, rfl, hcall, hpre⟩ := exists_split_of_lt_countP hn
  have hissues : (issues pre : ℤ) = LONG_MAX := by
    unfold issues
    rw [hpre]
    rfl
  cases call with
  | lookup handle wParam => cases hcall
  | acquire pUnk wParam =>
    refine (Inv.run hissues.le).not_keeps ?_ pUnk wParam ?_
    · rw [length_issued, hissues]
    · rw [← run_append]
      exact hr.keeps _ post (by rw [List.append_assoc]; rfl)

/-- **A run is right exactly when it hands out at most `LONG_MAX` handles.** -/
theorem right_iff (calls : List (Call Obj)) : Right calls ↔ (issues calls : ℤ) ≤ LONG_MAX := by
  constructor
  · intro hr
    by_contra hmany
    exact not_right (not_le.1 hmany) hr
  · intro h
    constructor
    · rintro pre post rfl
      refine (Inv.run ?_).keeps
      unfold issues at h ⊢
      rw [List.countP_append] at h
      omega
    · rintro pre pUnk wParam post rfl
      unfold issues at h
      rw [List.countP_append, List.countP_cons_of_pos rfl] at h
      refine (Inv.run ?_).issuesWell ?_ pUnk wParam
      · unfold issues
        omega
      · rw [length_issued]
        unfold issues
        omega

/-- **The handle 1 is given out a second time and lost at once.** -/
theorem lost_after_restart :
    ¬Right (List.replicate 2147483648 (Call.acquire 7 3 : Call ℕ)) := by
  refine not_right ?_
  unfold issues LONG_MAX
  rw [List.countP_replicate, Call.issues, if_pos rfl]
  norm_num

end Oleacc

end Swinx
