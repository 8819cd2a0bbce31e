import Mathlib

/-!
# Chains of a partial function

A chain starts at an element and goes on with the value of a partial function, as long as there is
one.  The chains that end are the accessible elements, and a new value for one element makes a chain
that does not end if and only if that element is on the chain of its value.

* `exists_chain_of_acc`, `acc_of_chain` — a chain ends if and only if its first element is
  accessible.
* `wellFounded_update_iff` — all chains end after a new value was set.
-/

namespace Swinx

namespace Chain

variable {α : Type*} {next : α → Option α}

/-- What comes right after `a` on its chain. -/
def Above (next : α → Option α) (b a : α) : Prop := next a = some b

/-- The elements of a chain that has less than `n` of them. -/
def chain (next : α → Option α) : ℕ → Option α → Option (List α)
  | 0, _ => none
  | _ + 1, none => some []
  | n + 1, some a => (chain next n (next a)).map (a :: ·)

theorem chain_mono {n m : ℕ} {a : Option α} {l : List α} (h : chain next n a = some l)
    (hle : n ≤ m) : chain next m a = some l := by
  induction n generalizing m a l with
  | zero => exact absurd h (by simp [chain])
  | succ n ih =>
    obtain ⟨m, rfl⟩ := Nat.exists_eq_succ_of_ne_zero (Nat.pos_iff_ne_zero.1 (by omega : 0 < m))
    cases a with
    | none => exact h
    | some a =>
      obtain ⟨l', hl', rfl⟩ := Option.map_eq_some_iff.1 h
      exact Option.map_eq_some_iff.2 ⟨l', ih hl' (Nat.le_of_succ_le_succ hle), rfl⟩

theorem exists_chain_of_acc {a : α} (h : Acc (Above next) a) :
    ∃ n l, chain next n (some a) = some (a :: l) := by
  induction h with
  | intro a _ ih =>
    cases hnext : next a with
    | none => exact ⟨2, [], by simp [chain, hnext]⟩
    | some b =>
      obtain ⟨n, l, hl⟩ := ih b hnext
      exact ⟨n + 1, b :: l, by simp [chain, hnext, hl]⟩

theorem acc_of_chain {n : ℕ} {a : α} {l : List α} (h : chain next n (some a) = some l) :
    Acc (Above next) a := by
  induction n generalizing a l with
  | zero => exact absurd h (by simp [chain])
  | succ n ih =>
    obtain ⟨l', hl', rfl⟩ := Option.map_eq_some_iff.1 h
    refine .intro a fun b hb => ?_
    rw [show next a = some b from hb] at hl'
    exact ih hl'

/-- `b` is on the chain of `a`. -/
abbrev On (next : α → Option α) (a b : α) : Prop :=
  Relation.ReflTransGen (fun x y => next x = some y) a b

theorem not_acc_of_on {a p : α} (hnext : next a = some p) (h : On next p a) :
    ¬ Acc (Above next) a := by
  intro hacc
  have hback : Relation.ReflTransGen (Above next) a p := by
    rw [← Relation.reflTransGen_swap]
    exact h
  have hcycle : Relation.TransGen (Above next) a a := .tail' hback hnext
  have htrans := hacc.transGen
  clear hnext h hback hacc
  induction htrans with
  | intro a _ ih => exact ih a hcycle hcycle

section Update

variable [DecidableEq α] {a p : α}

/-- A chain to an element does not use the value of that element. -/
theorem On.update (h : On next p a) (v : Option α) : On (Function.update next a v) p a := by
  induction h using Relation.ReflTransGen.head_induction_on with
  | refl => exact .refl
  | @head x y hxy _ ih =>
    by_cases hx : x = a
    · rw [hx]
    · exact .head (by rw [Function.update_of_ne hx, hxy]) ih

/-- An element stays accessible if what is changed is not on its chain. -/
theorem acc_update_of_not_on {v : Option α} (hwf : WellFounded (Above next)) (h : ¬ On next p a) :
    Acc (Above (Function.update next a v)) p := by
  induction p using hwf.induction with
  | _ p ih =>
    refine .intro p fun q hq => ?_
    have hne : p ≠ a := fun hp => h (hp ▸ .refl)
    have hq' : next p = some q := by rwa [Above, Function.update_of_ne hne] at hq
    exact ih q hq' fun hon => h (.head hq' hon)

/-- **All chains end after a new value was set** if and only if the element is not on the chain of
its value. -/
theorem wellFounded_update_iff (hwf : WellFounded (Above next)) {v : Option α} :
    WellFounded (Above (Function.update next a v)) ↔ ∀ q ∈ v, ¬ On next q a := by
  constructor
  · rintro h q rfl hon
    exact not_acc_of_on (Function.update_self a _ next) (hon.update _) (h.apply a)
  · intro hv
    have ha : Acc (Above (Function.update next a v)) a := by
      refine .intro a fun q hq => ?_
      rw [Above, Function.update_self] at hq
      exact acc_update_of_not_on hwf (hv q hq)
    refine ⟨fun x => ?_⟩
    induction x using hwf.induction with
    | _ x ih =>
      by_cases hx : x = a
      · rwa [hx]
      · refine .intro x fun y hy => ih y ?_
        rwa [Above, Function.update_of_ne hx] at hy

end Update

end Chain

end Swinx
