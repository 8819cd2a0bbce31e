import Mathlib.Logic.Equiv.Basic
import Mathlib.Data.Int.Interval
import Mathlib.Order.Defs.Unbundled

/-!
# Sorting an array segment by segment

An array is a function of the position.  A sorting algorithm that works in place moves the elements
of one segment after the other, and what is left to do at any time is a list of segments: two
elements are in order already, or both are in one segment that is still open.

* `Moves.trans`, `Moves.swap` — how moves are put together.
* `SortedBut.replace` — a segment is replaced by the segments its elements were moved into.
* `SortedBut.sorted` — when no segment is open, the elements are in order.
-/

namespace Swinx

namespace Segments

variable {α : Type*} {A B C : ℤ → α} {lo hi lo' hi' p q : ℤ}

/-- **`B` is `A` with elements from `lo` to `hi` moved**, and nothing else. -/
def Moves (lo hi : ℤ) (A B : ℤ → α) : Prop :=
  ∃ σ : Equiv.Perm ℤ, (∀ p, p < lo ∨ hi < p → σ p = p) ∧ B = A ∘ σ

namespace Moves

theorem refl (lo hi : ℤ) (A : ℤ → α) : Moves lo hi A A :=
  ⟨Equiv.refl ℤ, fun _ _ => rfl, rfl⟩

theorem trans (h : Moves lo hi A B) (h' : Moves lo hi B C) : Moves lo hi A C := by
  obtain ⟨σ, hσ, rfl⟩ := h
  obtain ⟨τ, hτ, rfl⟩ := h'
  refine ⟨τ.trans σ, ?_, rfl⟩
  intro p hp
  rw [Equiv.trans_apply, hτ p hp, hσ p hp]

theorem swap (A : ℤ → α) (hp : lo ≤ p ∧ p ≤ hi) (hq : lo ≤ q ∧ q ≤ hi) :
    Moves lo hi A (A ∘ Equiv.swap p q) := by
  refine ⟨Equiv.swap p q, ?_, rfl⟩
  intro r hr
  exact Equiv.swap_apply_of_ne_of_ne (by omega) (by omega)

theorem mono (h : Moves lo hi A B) (hlo : lo' ≤ lo) (hhi : hi ≤ hi') : Moves lo' hi' A B := by
  obtain ⟨σ, hσ, hB⟩ := h
  refine ⟨σ, ?_, hB⟩
  intro p hp
  exact hσ p (by omega)

/-- **Where the elements were**: one outside of the segment where it is, one inside of it inside. -/
theorem source (h : Moves lo hi A B) : ∃ σ : ℤ → ℤ, (∀ p, B p = A (σ p)) ∧
    ∀ p, (p < lo ∨ hi < p) ∧ σ p = p ∨ (lo ≤ p ∧ p ≤ hi) ∧ lo ≤ σ p ∧ σ p ≤ hi := by
  obtain ⟨σ, hσ, rfl⟩ := h
  refine ⟨σ, fun _ => rfl, ?_⟩
  intro p
  by_cases hp : p < lo ∨ hi < p
  · exact .inl ⟨hp, hσ p hp⟩
  -- a position outside is its own image, so no other one is taken there
  refine .inr ⟨by omega, ?_⟩
  by_contra hout
  have hself : σ (σ p) = σ p := hσ (σ p) (by omega)
  have hfix : σ p = p := σ.injective hself
  omega

theorem outside (h : Moves lo hi A B) (hp : p < lo ∨ hi < p) : B p = A p := by
  obtain ⟨σ, hσ, rfl⟩ := h
  exact congrArg A (hσ p hp)

/-- What holds of all elements of the segment, holds of them after the move. -/
theorem forall_inside {P : α → Prop} (h : Moves lo hi A B) (hA : ∀ p, lo ≤ p → p ≤ hi → P (A p)) :
    ∀ p, lo ≤ p → p ≤ hi → P (B p) := by
  intro p hlo hhi
  obtain ⟨σ, hB, hσ⟩ := h.source
  rw [hB p]
  rcases hσ p with ⟨hp, -⟩ | ⟨-, hp⟩
  · omega
  · exact hA _ hp.1 hp.2

end Moves

/-! ### Open segments -/

/-- Two segments have no position in common. -/
def Clear (s t : ℤ × ℤ) : Prop := s.2 < t.1 ∨ t.2 < s.1

/-- **The elements from `lo` to `hi` are in order**, but for those that lie in one of `segs`. -/
def SortedBut (le : α → α → Prop) (A : ℤ → α) (lo hi : ℤ) (segs : List (ℤ × ℤ)) : Prop :=
  ∀ i j, lo ≤ i → i < j → j ≤ hi → le (A i) (A j) ∨ ∃ s ∈ segs, s.1 ≤ i ∧ j ≤ s.2

namespace SortedBut

variable {le : α → α → Prop} {segs new : List (ℤ × ℤ)} {seg : ℤ × ℤ}

theorem whole (le : α → α → Prop) (A : ℤ → α) (lo hi : ℤ) : SortedBut le A lo hi [(lo, hi)] :=
  fun _ _ hlo _ hhi => .inr ⟨(lo, hi), List.mem_singleton_self _, hlo, hhi⟩

/-- **At the end everything is in order.** -/
theorem sorted (h : SortedBut le A lo hi []) {i j : ℤ} (hlo : lo ≤ i) (hij : i < j) (hhi : j ≤ hi) :
    le (A i) (A j) := by
  rcases h i j hlo hij hhi with hle | ⟨s, hs, -⟩
  · exact hle
  · exact absurd hs List.not_mem_nil

/-- **A segment is replaced by segments in it**, when its elements were moved within the segment and
only those of the new ones are left to be sorted. -/
theorem replace (h : SortedBut le A lo hi (seg :: segs)) (hlo : lo ≤ seg.1) (hhi : seg.2 ≤ hi)
    (hclear : ∀ s ∈ segs, Clear seg s) (hmoves : Moves seg.1 seg.2 A B)
    (hnew : SortedBut le B seg.1 seg.2 new) : SortedBut le B lo hi (new ++ segs) := by
  intro i j hi0 hij hj0
  by_cases hin : seg.1 ≤ i ∧ j ≤ seg.2
  · rcases hnew i j hin.1 hij hin.2 with hle | ⟨s, hs, hsij⟩
    · exact .inl hle
    · exact .inr ⟨s, List.mem_append_left _ hs, hsij⟩
  -- the two elements were in the same order before: only one of them is in the segment
  obtain ⟨σ, hB, hσ⟩ := hmoves.source
  have hσi := hσ i
  have hσj := hσ j
  rw [hB i, hB j]
  rcases h (σ i) (σ j) (by omega) (by omega) (by omega) with hle | ⟨s, hs, hsi, hsj⟩
  · exact .inl hle
  · rcases List.mem_cons.1 hs with rfl | hs
    · omega
    · have hapart : seg.2 < s.1 ∨ s.2 < seg.1 := hclear s hs
      exact .inr ⟨s, List.mem_append_right _ hs, by omega, by omega⟩

end SortedBut

end Segments

end Swinx
