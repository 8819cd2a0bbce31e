import Mathlib.Data.Nat.Basic
import Mathlib.Logic.Function.Basic

/-!
# Pages of an address space

An address space as the owners of its pages, and `mmap` and `munmap` of ranges of pages.

* `mapPages_eq_some` — what is owned after `mmap`: what was owned before, and the new pages.
* `unmapPages_eq_some` — what is left by `munmap`.
-/

namespace Swinx

/-- The pages that `len` bytes take. -/
def pagesOf (len : ℕ) : ℕ := (len + 4095) / 4096

theorem pagesOf_pos {len : ℕ} (h : 0 < len) : 0 < pagesOf len := by
  unfold pagesOf
  omega

variable {α : Type*}

/-- `n` pages from `base` on get the owner `a`. -/
def mapPages (m : ℕ → Option α) (base n : ℕ) (a : α) : ℕ → Option α := fun i =>
  if base ≤ i ∧ i < base + n then some a else m i

/-- `n` pages from `base` on are unmapped. -/
def unmapPages (m : ℕ → Option α) (base n : ℕ) : ℕ → Option α := fun i =>
  if base ≤ i ∧ i < base + n then none else m i

/-- None of `n` pages from `base` on is mapped. -/
def FreePages (m : ℕ → Option α) (base n : ℕ) : Prop := ∀ i < n, m (base + i) = none

instance decidableFreePages [DecidableEq α] (m : ℕ → Option α) (base n : ℕ) :
    Decidable (FreePages m base n) :=
  inferInstanceAs (Decidable (∀ i < n, m (base + i) = none))

variable {m : ℕ → Option α} {base n i : ℕ} {a b : α}

theorem FreePages.eq_none (h : FreePages m base n) (hi : base ≤ i ∧ i < base + n) :
    m i = none := by
  have := h (i - base) (by omega)
  rwa [Nat.add_sub_cancel' hi.1] at this

theorem mapPages_of_mem (hi : base ≤ i ∧ i < base + n) : mapPages m base n a i = some a :=
  if_pos hi

theorem mapPages_eq_some (hfree : FreePages m base n) :
    mapPages m base n a i = some b ↔ m i = some b ∨ (base ≤ i ∧ i < base + n) ∧ a = b := by
  by_cases hi : base ≤ i ∧ i < base + n
  · rw [mapPages_of_mem hi, hfree.eq_none hi]
    simp [hi]
  · rw [mapPages, if_neg hi]
    simp [hi]

theorem unmapPages_eq_some :
    unmapPages m base n i = some a ↔ m i = some a ∧ ¬ (base ≤ i ∧ i < base + n) := by
  unfold unmapPages
  split_ifs with h
  · simp [h]
  · simp [h]

end Swinx
