import Mathlib.Data.Int.Notation
import Mathlib.Data.Nat.Notation
import Mathlib.Tactic.SplitIfs

/-!
# Objects with a reference count

An object that frees itself when its last reference is released.  What happens to an object after
it was freed is undefined in the program; here it is recorded: `misused` says that a freed object
has been used.

* `Counted.addRef`, `Counted.release`, `Counted.touch` — the uses of an object.
* `Counted.Held c n` — `n` references are held, and nothing has gone wrong.
-/

namespace Swinx

/-- An object with a reference count. -/
structure Counted where
  nRef : ℤ
  /-- How often the object has been freed. -/
  frees : ℕ
  /-- The object has been used after it was freed. -/
  misused : Bool
  deriving DecidableEq, Repr

namespace Counted

/-- A new object; its creator holds a reference. -/
def new : Counted := ⟨1, 0, false⟩

/-- A field of the object is read or written. -/
def touch (c : Counted) : Counted :=
  if c.frees = 0 then c else { c with misused := true }

/-- `AddRef` -/
def addRef (c : Counted) : Counted :=
  if c.frees = 0 then { c with nRef := c.nRef + 1 } else { c with misused := true }

/-- `Release`: the object is freed with its last reference. -/
def release (c : Counted) : Counted :=
  if c.frees = 0 then
    { c with nRef := c.nRef - 1, frees := if c.nRef - 1 = 0 then 1 else 0 }
  else { c with misused := true }

/-- **`n` references are held**: the object is freed when there is none, and has not been used
since. -/
structure Held (c : Counted) (n : ℕ) : Prop where
  nRef : c.nRef = n
  frees : c.frees = if n = 0 then 1 else 0
  sound : c.misused = false

theorem held_new : Held new 1 := ⟨rfl, rfl, rfl⟩

namespace Held

variable {c : Counted} {n : ℕ}

theorem alive (h : Held c (n + 1)) : c.frees = 0 := h.frees

theorem touch_eq (h : Held c (n + 1)) : c.touch = c := if_pos h.alive

theorem addRef (h : Held c (n + 1)) : Held c.addRef (n + 2) := by
  rw [Counted.addRef, if_pos h.alive]
  exact ⟨by simp [h.nRef]; omega, h.frees, h.sound⟩

theorem release (h : Held c (n + 1)) : Held c.release n := by
  have hn : c.nRef - 1 = n := by simp [h.nRef]
  rw [Counted.release, if_pos h.alive]
  refine ⟨hn, ?_, h.sound⟩
  simp only [hn, Int.natCast_eq_zero]

theorem misused_touch (h : Held c 0) : c.touch.misused = true := by
  simp [touch, h.frees]

theorem misused_release (h : Held c 0) : c.release.misused = true := by
  simp [Counted.release, h.frees]

end Held

theorem misused_touch {c : Counted} (h : c.misused = true) : c.touch.misused = true := by
  by_cases hc : c.frees = 0
  · rw [touch, if_pos hc]
    exact h
  · rw [touch, if_neg hc]

theorem misused_release {c : Counted} (h : c.misused = true) : c.release.misused = true := by
  by_cases hc : c.frees = 0
  · rw [release, if_pos hc]
    exact h
  · rw [release, if_neg hc]

end Counted

end Swinx
