import Mathlib.Data.List.DropRight
import Mathlib.Data.List.Induction

/-!
# Components of a text

A text is cut into components at its separators, and components are joined by one.  Lexical
resolution goes through the components from the left: it leaves out each that stands for itself, and
takes away the one before for each that stands for the one above.

* `component_induction` — induction on the components.
* `components_joined` — components are found again.
* `length_joined_resolve_le` — resolution makes a text no longer.
* `resolve_eq_append` — resolution keeps components without a meaning of their own.
-/

namespace Swinx

namespace Components

variable {α : Type}

section Cut

variable (isSep : α → Bool)

/-- There is no separator. -/
def NoSep (w : List α) : Prop := ∀ u ∈ w, isSep u = false

/-- The components of a text. -/
def components (s : List α) : List (List α) := s.splitOnP isSep

/-- **A part of the text up to a separator**, or all of it. -/
def Stage (s q : List α) : Prop :=
  q <+: s ∧ (q = s ∨ q = [] ∨ q.getLast?.any isSep = true)

end Cut

variable {isSep : α → Bool} {s q w rest : List α} {sep u : α}

/-! ### One component -/

/-- **Induction on the components of a text.** -/
theorem component_induction (isSep : α → Bool) {motive : List α → Prop}
    (last : ∀ w, NoSep isSep w → motive w)
    (more : ∀ w u rest, NoSep isSep w → isSep u = true → motive rest → motive (w ++ u :: rest))
    (s : List α) : motive s := by
  suffices h : ∀ w, NoSep isSep w → motive (w ++ s) from h [] fun _ hu => absurd hu List.not_mem_nil
  induction s with
  | nil =>
    intro w hw
    rw [List.append_nil]
    exact last w hw
  | cons u s ih =>
    intro w hw
    cases hu : isSep u with
    | true => exact more w u s hw hu (ih [] fun _ hv => absurd hv List.not_mem_nil)
    | false =>
      rw [← List.singleton_append, ← List.append_assoc]
      refine ih (w ++ [u]) fun v hv => ?_
      rcases List.mem_append.1 hv with hv | hv
      · exact hw v hv
      · rw [List.mem_singleton.1 hv, hu]

theorem components_last (hw : NoSep isSep w) : components isSep w = [w] :=
  List.splitOnP_eq_singleton hw

theorem components_more (hw : NoSep isSep w) (hu : isSep u = true) :
    components isSep (w ++ u :: rest) = w :: components isSep rest :=
  List.splitOnP_append_cons_of_forall_mem hw u hu rest

theorem components_ne_nil (s : List α) : components isSep s ≠ [] := List.splitOnP_ne_nil isSep s

theorem components_nil : components isSep [] = [[]] := List.splitOnP_nil

/-- The components have the units of the text, but no separators. -/
theorem of_mem_components {c : List α} (h : c ∈ components isSep s) :
    NoSep isSep c ∧ ∀ u ∈ c, u ∈ s := by
  induction s using component_induction isSep with
  | last w hw =>
    rw [components_last hw] at h
    obtain rfl := List.mem_singleton.1 h
    exact ⟨hw, fun u hu => hu⟩
  | more w v rest hw hv ih =>
    rw [components_more hw hv] at h
    rcases List.mem_cons.1 h with rfl | h
    · exact ⟨hw, fun u hu => List.mem_append_left _ hu⟩
    · obtain ⟨hno, hmem⟩ := ih h
      exact ⟨hno, fun u hu => List.mem_append_right _ (List.mem_cons_of_mem v (hmem u hu))⟩

/-! ### Stages -/

theorem stage_self (s : List α) : Stage isSep s s := ⟨List.prefix_rfl, .inl rfl⟩

/-- A part without separators is no stage, unless it is all of the text or empty. -/
theorem Stage.eq_of_noSep (h : Stage isSep s q) (hq : NoSep isSep q) : q = s ∨ q = [] := by
  rcases h.2 with h | h | h
  · exact .inl h
  · exact .inr h
  · obtain ⟨u, hu, hsep⟩ := (Option.any_eq_true _ _).1 h
    have hno := hq u (List.mem_of_getLast? hu)
    rw [hsep] at hno
    cases hno

theorem stage_last (hw : NoSep isSep w) : Stage isSep w q ↔ q = w ∨ q = [] := by
  constructor
  · exact fun h => h.eq_of_noSep fun u hu => hw u (h.1.mem hu)
  · rintro (rfl | rfl)
    · exact stage_self q
    · exact ⟨List.nil_prefix, .inr (.inl rfl)⟩

theorem stage_more (hw : NoSep isSep w) (hu : isSep u = true) :
    Stage isSep (w ++ u :: rest) q ↔ q = [] ∨ ∃ q', Stage isSep rest q' ∧ q = w ++ u :: q' := by
  constructor
  · intro h
    obtain ⟨t, ht⟩ := h.1
    rcases List.append_eq_append_iff.1 ht with ⟨v, rfl, -⟩ | ⟨v, rfl, hv⟩
    · -- The part ends in the first component.
      rcases h.eq_of_noSep fun x hx => hw x (List.mem_append_left v hx) with h | h
      · have hlen := congrArg List.length h
        simp only [List.length_append, List.length_cons] at hlen
        omega
      · exact .inl h
    · cases v with
      | nil =>
        rw [List.append_nil] at h ⊢
        rcases h.eq_of_noSep hw with h | h
        · have hlen := congrArg List.length h
          simp only [List.length_append, List.length_cons] at hlen
          omega
        · exact .inl h
      | cons x q' =>
        obtain ⟨rfl, rfl⟩ := List.cons_eq_cons.1 hv
        refine .inr ⟨q', ⟨List.prefix_append q' t, ?_⟩, rfl⟩
        rcases h.2 with h | h | h
        · exact .inl (List.cons_eq_cons.1 (List.append_cancel_left h)).2
        · simp at h
        · by_cases hq' : q' = []
          · exact .inr (.inl hq')
          · rw [List.getLast?_append_cons, List.getLast?_cons_of_ne_nil hq'] at h
            exact .inr (.inr h)
  · rintro (rfl | ⟨q', ⟨hpre, h⟩, rfl⟩)
    · exact ⟨List.nil_prefix, .inr (.inl rfl)⟩
    · refine ⟨(List.prefix_append_right_inj w).2 ((List.prefix_cons_inj u).2 hpre), ?_⟩
      rcases h with rfl | rfl | h
      · exact .inl rfl
      · refine .inr (.inr ?_)
        rw [List.getLast?_append_cons, List.getLast?_singleton, Option.any_some, hu]
      · refine .inr (.inr ?_)
        have hne : q' ≠ [] := by
          rintro rfl
          cases h
        rw [List.getLast?_append_cons, List.getLast?_cons_of_ne_nil hne]
        exact h

/-! ### Components in a row -/

/-- The components with a separator behind each. -/
def ended (sep : α) (cs : List (List α)) : List α := cs.flatMap (· ++ [sep])

/-- The components with a separator between each two. -/
def joined (sep : α) (cs : List (List α)) : List α := [sep].intercalate cs

@[simp] theorem ended_nil : ended sep [] = [] := rfl

@[simp] theorem ended_concat (cs : List (List α)) (c : List α) :
    ended sep (cs ++ [c]) = ended sep cs ++ (c ++ [sep]) := by
  rw [ended, List.flatMap_append, List.flatMap_singleton]
  rfl

@[simp] theorem joined_nil : joined sep [] = [] := rfl

@[simp] theorem joined_singleton (c : List α) : joined sep [c] = c := List.intercalate_singleton

theorem joined_cons_cons (c d : List α) (cs : List (List α)) :
    joined sep (c :: d :: cs) = c ++ sep :: joined sep (d :: cs) := by
  rw [joined, List.intercalate_cons_cons, List.append_assoc, List.singleton_append]
  rfl

theorem joined_concat (cs : List (List α)) (c : List α) :
    joined sep (cs ++ [c]) = ended sep cs ++ c := by
  induction cs with
  | nil => exact joined_singleton c
  | cons d cs ih =>
    obtain ⟨e, es, he⟩ := List.exists_cons_of_ne_nil (List.append_ne_nil_of_right_ne_nil cs
      (List.cons_ne_nil c []))
    rw [List.cons_append, he, joined_cons_cons, ← he, ih, ended, ended, List.flatMap_cons,
      List.append_assoc, List.append_assoc, List.singleton_append]

theorem mem_joined {cs : List (List α)} (h : u ∈ joined sep cs) : u = sep ∨ ∃ c ∈ cs, u ∈ c := by
  induction cs with
  | nil => cases h
  | cons c cs ih =>
    cases cs with
    | nil =>
      rw [joined_singleton] at h
      exact .inr ⟨c, List.mem_cons_self, h⟩
    | cons d cs =>
      rw [joined_cons_cons] at h
      rcases List.mem_append.1 h with h | h
      · exact .inr ⟨c, List.mem_cons_self, h⟩
      · rcases List.mem_cons.1 h with h | h
        · exact .inl h
        · exact (ih h).imp_right fun ⟨e, he, hu⟩ => ⟨e, List.mem_cons_of_mem c he, hu⟩

theorem length_ended (sep : α) (cs : List (List α)) (h : cs ≠ []) :
    (ended sep cs).length = (joined sep cs).length + 1 := by
  rcases List.eq_nil_or_concat cs with rfl | ⟨cs, c, rfl⟩
  · exact absurd rfl h
  · rw [List.concat_eq_append, joined_concat, ended_concat, List.length_append, List.length_append,
      List.length_append, List.length_singleton, Nat.add_assoc]

/-- **Joined components are found again.** -/
theorem components_joined (hsep : isSep sep = true) {cs : List (List α)} (hne : cs ≠ [])
    (h : ∀ c ∈ cs, NoSep isSep c) : components isSep (joined sep cs) = cs := by
  induction cs with
  | nil => exact absurd rfl hne
  | cons c cs ih =>
    have hc := h c List.mem_cons_self
    cases cs with
    | nil => rw [joined_singleton, components_last hc]
    | cons d cs =>
      rw [joined_cons_cons, components_more hc hsep,
        ih (List.cons_ne_nil d cs) fun e he => h e (List.mem_cons_of_mem c he)]

theorem length_ended_components (s : List α) :
    (ended sep (components isSep s)).length = s.length + 1 := by
  induction s using component_induction isSep with
  | last w hw => rw [components_last hw, ← List.nil_append [w], ended_concat]; simp
  | more w u rest hw hu ih =>
    rw [components_more hw hu, ended, List.flatMap_cons, List.length_append, ← ended, ih]
    simp
    omega

theorem length_ended_dropLast_le (sep : α) (st : List (List α)) :
    (ended sep st.dropLast).length ≤ (ended sep st).length := by
  rcases List.eq_nil_or_concat st with rfl | ⟨st, c, rfl⟩
  · exact le_rfl
  · rw [List.concat_eq_append, List.dropLast_concat, ended_concat, List.length_append]
    exact Nat.le_add_right _ _

/-! ### Resolution -/

section Resolve

variable [DecidableEq α] {cur up c : List α} {st cs : List (List α)}

/-- **Lexical resolution** of components behind those of `st`. -/
def resolve (cur up : List α) : List (List α) → List (List α) → List (List α)
  | st, [] => st
  | st, c :: cs =>
    if c = cur then resolve cur up st cs
    else if c = up then resolve cur up st.dropLast cs
    else resolve cur up (st ++ [c]) cs

theorem mem_resolve (h : c ∈ resolve cur up st cs) : c ∈ st ∨ c ∈ cs := by
  induction cs generalizing st with
  | nil => exact .inl h
  | cons d cs ih =>
    rw [resolve] at h
    split_ifs at h with hcur hup
    · exact (ih h).imp_right (List.mem_cons_of_mem d)
    · exact (ih h).imp (fun h => List.dropLast_subset st h) (List.mem_cons_of_mem d)
    · rcases ih h with h | h
      · rcases List.mem_append.1 h with h | h
        · exact .inl h
        · exact .inr (List.mem_singleton.1 h ▸ List.mem_cons_self)
      · exact .inr (List.mem_cons_of_mem d h)

/-- **Components without a meaning of their own are kept.** -/
theorem resolve_eq_append (h : ∀ c ∈ cs, c ≠ cur ∧ c ≠ up) : resolve cur up st cs = st ++ cs := by
  induction cs generalizing st with
  | nil => exact (List.append_nil st).symm
  | cons d cs ih =>
    obtain ⟨hcur, hup⟩ := h d List.mem_cons_self
    rw [resolve, if_neg hcur, if_neg hup, ih fun c hc => h c (List.mem_cons_of_mem d hc),
      List.append_assoc, List.singleton_append]

theorem length_ended_resolve_le (sep : α) (cur up : List α) (st cs : List (List α)) :
    (ended sep (resolve cur up st cs)).length ≤ (ended sep st).length + (ended sep cs).length := by
  induction cs generalizing st with
  | nil => exact Nat.le_add_right _ _
  | cons d cs ih =>
    have hcons : (ended sep (d :: cs)).length = (d ++ [sep]).length + (ended sep cs).length := by
      rw [ended, List.flatMap_cons, List.length_append, ← ended]
    rw [resolve, hcons]
    split_ifs with hcur hup
    · exact (ih st).trans (by omega)
    · have := length_ended_dropLast_le sep st
      exact (ih st.dropLast).trans (by omega)
    · have := ih (st ++ [d])
      rw [ended_concat, List.length_append] at this
      omega

/-- **Resolution makes a text no longer.** -/
theorem length_joined_resolve_le (isSep : α → Bool) (sep : α) (cur up s : List α) :
    (joined sep (resolve cur up [] (components isSep s))).length ≤ s.length := by
  have hle := length_ended_resolve_le sep cur up [] (components isSep s)
  rw [length_ended_components, ended_nil, List.length_nil] at hle
  by_cases h : resolve cur up [] (components isSep s) = []
  · rw [h]
    exact Nat.zero_le _
  · rw [length_ended sep _ h] at hle
    omega

end Resolve

end Components

end Swinx
