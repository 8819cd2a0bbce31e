import Mathlib.Algebra.BigOperators.Group.Finset.Basic
import Mathlib.Algebra.BigOperators.Ring.Finset

/-!
# Sums over a function that changes at one point

Accounts of a system are sums over its parties or slots, and a step changes one of them.
-/

namespace Swinx

open Function (update update_of_ne update_self)

variable {ι β : Type*} [DecidableEq ι] {s : Finset ι} {i : ι}

theorem sum_update (F : ι → β → ℤ) (g : ι → β) (hi : i ∈ s) (v : β) :
    ∑ j ∈ s, F j (update g i v j) = ∑ j ∈ s, F j (g j) - F i (g i) + F i v := by
  have hrest : ∑ j ∈ s.erase i, F j (update g i v j) = ∑ j ∈ s.erase i, F j (g j) :=
    Finset.sum_congr rfl fun j hj => by rw [update_of_ne (Finset.ne_of_mem_erase hj)]
  rw [← Finset.add_sum_erase s _ hi, ← Finset.add_sum_erase s (fun j => F j (g j)) hi, hrest,
    update_self]
  omega

/-- The account after the party `i` has moved, when parties outside `s` have empty accounts. -/
theorem sum_insert_update (F : ι → β → ℤ) (g : ι → β) (hs : ∀ j, j ∉ s → F j (g j) = 0) (v : β) :
    ∑ j ∈ insert i s, F j (update g i v j) =
      ∑ j ∈ s, F j (g j) - F i (g i) + F i v := by
  rw [sum_update F g (Finset.mem_insert_self i s)]
  by_cases hi : i ∈ s
  · rw [Finset.insert_eq_of_mem hi]
  · rw [Finset.sum_insert hi, hs i hi, zero_add]

/-- The account in natural numbers after the party `i` has moved. -/
theorem sum_update_add (F : ι → β → ℕ) (g : ι → β) (hi : i ∈ s) (v : β) :
    ∑ j ∈ s, F j (update g i v j) + F i (g i) = ∑ j ∈ s, F j (g j) + F i v := by
  have hrest : ∑ j ∈ s.erase i, F j (update g i v j) = ∑ j ∈ s.erase i, F j (g j) :=
    Finset.sum_congr rfl fun j hj => by rw [update_of_ne (Finset.ne_of_mem_erase hj)]
  rw [← Finset.add_sum_erase s _ hi, ← Finset.add_sum_erase s (fun j => F j (g j)) hi, hrest,
    update_self]
  omega

/-- The number of parties of a kind after the party `i` has moved. -/
theorem card_filter_update (P : β → Bool) (g : ι → β) (hi : i ∈ s) (v : β) :
    (s.filter fun j => P (update g i v j)).card + (P (g i)).toNat =
      (s.filter fun j => P (g j)).card + (P v).toNat := by
  have hcard : ∀ g : ι → β, (s.filter fun j => P (g j)).card = ∑ j ∈ s, (P (g j)).toNat := by
    intro g
    rw [Finset.card_filter]
    refine Finset.sum_congr rfl fun j _ => ?_
    cases P (g j) <;> rfl
  rw [hcard, hcard]
  exact sum_update_add (fun _ v => (P v).toNat) g hi v

end Swinx
