import Mathlib.Data.Nat.Notation
import Mathlib.Logic.Basic
import Mathlib.Tactic.ByContra

/-!
# A single token among many parties

`Exclusive n C` says that one token is either free (`n = 1`, nobody carries it) or carried by
exactly one party (`n = 0`).  The lemmas follow the life of the token: it is taken, it is put
back, and nothing else may change who carries it.
-/

namespace Swinx

/-- One token, free or carried by exactly one party satisfying `C`. -/
inductive Exclusive {T : Type*} (n : ℕ) (C : T → Prop) : Prop
  | free (hn : n = 1) (hC : ∀ t, ¬ C t)
  | held (t : T) (hn : n = 0) (ht : C t) (hC : ∀ u, C u → u = t)

namespace Exclusive

variable {T : Type*} {n : ℕ} {C C' : T → Prop} {t u : T}

theorem unique (h : Exclusive n C) (ht : C t) (hu : C u) : t = u := by
  cases h with
  | free _ hC => exact absurd ht (hC t)
  | held v _ _ hC => exact (hC t ht).trans (hC u hu).symm

theorem eq_zero (h : Exclusive n C) (ht : C t) : n = 0 := by
  cases h with
  | free _ hC => exact absurd ht (hC t)
  | held _ hn _ _ => exact hn

theorem not_carried (h : Exclusive n C) (hn : 0 < n) (t : T) : ¬ C t := by
  intro ht
  have := h.eq_zero ht
  omega

theorem congr (h : Exclusive n C) (hC : ∀ u, C' u ↔ C u) : Exclusive n C' := by
  have : C' = C := funext fun u => propext (hC u)
  exact this ▸ h

theorem take (h : Exclusive n C) (hn : 0 < n) (ht : C' t) (hC : ∀ u, u ≠ t → (C' u ↔ C u)) :
    Exclusive (n - 1) C' := by
  refine .held t ?_ ht fun u hu => ?_
  · cases h with
    | free hn' _ => omega
    | held _ hn' _ _ => omega
  · by_contra hne
    exact h.not_carried hn u ((hC u hne).1 hu)

theorem put (h : Exclusive n C) (ht : C t) (ht' : ¬ C' t) (hC : ∀ u, u ≠ t → (C' u ↔ C u)) :
    Exclusive (n + 1) C' := by
  refine .free (by rw [h.eq_zero ht]) fun u hu => ?_
  by_cases hne : u = t
  · exact ht' (hne ▸ hu)
  · exact hne (h.unique ((hC u hne).1 hu) ht)

end Exclusive

end Swinx
