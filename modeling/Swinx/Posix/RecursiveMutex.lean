import Mathlib

/-!
# A recursive mutex

The mutex of `std::recursive_mutex`, with its owner and the number of times that the owner has
locked it.

* `RecursiveMutex.lock` — blocks (`none`) while another thread owns the mutex.
* `RecursiveMutex.unlock` — undefined (`none`) for a thread that does not own it.
* `RecursiveMutex.own` — how many times a thread has locked it.
-/

namespace Swinx

/-- A mutex of threads `τ`: free, or owned with a depth. -/
structure RecursiveMutex (τ : Type*) where
  owner : Option τ
  depth : ℕ
  /-- A free mutex has no depth, an owned one has some. -/
  depth_eq_zero : depth = 0 ↔ owner = none

namespace RecursiveMutex

variable {τ : Type*} [DecidableEq τ] (m : RecursiveMutex τ) (t : τ)

/-- The free mutex. -/
def free : RecursiveMutex τ := ⟨none, 0, by simp⟩

/-- How many times the thread has locked the mutex. -/
def own : ℕ := if m.owner = some t then m.depth else 0

/-- The mutex of a thread that has locked it `k + 1` times. -/
def ownedBy (k : ℕ) : RecursiveMutex τ := ⟨some t, k + 1, by simp⟩

/-- `lock` -/
def lock : Option (RecursiveMutex τ) :=
  if m.owner = none ∨ m.owner = some t then some (ownedBy t m.depth) else none

/-- `unlock` -/
def unlock : Option (RecursiveMutex τ) :=
  if m.owner = some t then
    match m.depth with
    | k + 2 => some (ownedBy t k)
    | _ => some free
  else none

variable {m t}

@[simp] theorem own_free : (free : RecursiveMutex τ).own t = 0 := by simp [own, free]

@[simp] theorem own_ownedBy (k : ℕ) : (ownedBy t k).own t = k + 1 := by simp [own, ownedBy]

theorem own_of_ne {u : τ} (h : m.owner ≠ some u) : m.own u = 0 := if_neg h

theorem own_of_owner (h : m.owner = some t) : m.own t = m.depth := if_pos h

theorem own_pos_iff : 0 < m.own t ↔ m.owner = some t := by
  unfold own
  split_ifs with h
  · refine iff_of_true (Nat.pos_of_ne_zero fun h0 => ?_) h
    cases h.symm.trans (m.depth_eq_zero.1 h0)
  · exact iff_of_false (lt_irrefl 0) h

/-- After `lock` the thread owns the mutex once more, and no other thread does. -/
theorem lock_spec {m' : RecursiveMutex τ} (h : m.lock t = some m') :
    m'.owner = some t ∧ m'.depth = m.depth + 1 ∧ m'.own t = m.own t + 1 ∧
      ∀ u, u ≠ t → m'.own u = m.own u := by
  simp only [lock, Option.ite_none_right_eq_some, Option.some.injEq] at h
  obtain ⟨howner, rfl⟩ := h
  refine ⟨rfl, rfl, ?_, fun u hu => ?_⟩
  · rw [own_ownedBy]
    rcases howner with hnone | howner
    · rw [m.depth_eq_zero.2 hnone, own_of_ne (by simp [hnone])]
    · rw [own_of_owner howner]
  · have hne : some t ≠ some u := fun h => hu (Option.some.inj h).symm
    rw [own_of_ne (by simpa [ownedBy] using hne), own_of_ne]
    rcases howner with h | h <;> rw [h]
    · simp
    · exact hne

theorem unlock_spec (howner : m.owner = some t) : ∃ m', m.unlock t = some m' ∧
    m'.depth + 1 = m.depth ∧ m'.own t + 1 = m.own t ∧ ∀ u, u ≠ t → m'.own u = 0 ∧ m.own u = 0 := by
  have hother : ∀ u, u ≠ t → m.own u = 0 := by
    intro u hu
    rw [own_of_ne]
    rw [howner]
    exact fun h => hu (Option.some.inj h).symm
  have hdepth : m.depth ≠ 0 := fun h => by cases howner.symm.trans (m.depth_eq_zero.1 h)
  rw [unlock, if_pos howner, own_of_owner howner]
  match hd : m.depth with
  | 0 => exact absurd hd hdepth
  | 1 => exact ⟨free, rfl, rfl, by simp, fun u hu => ⟨own_free, hother u hu⟩⟩
  | k + 2 =>
    refine ⟨ownedBy t k, rfl, rfl, by simp, fun u hu => ⟨own_of_ne ?_, hother u hu⟩⟩
    exact fun h => hu (Option.some.inj h).symm

end RecursiveMutex

end Swinx
