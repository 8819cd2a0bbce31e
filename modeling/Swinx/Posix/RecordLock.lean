import Mathlib.Data.List.Pairwise
import Mathlib.Tactic.ByContra
import Mathlib.Tactic.SplitIfs

/-!
# POSIX record locks on a whole file

`fcntl(F_SETLKW)` locks belong to processes: a request of a process replaces the lock it has, it
waits only for the locks of others, `F_UNLCK` drops the lock of the process, and so does closing
any descriptor the process has on the file.  `RecordLocks P` is the lock list of one file, with the
compatibility of its entries as a field: no operation can build a list in which a write lock is not
alone.

* `RecordLocks.holds_of_setlkw`, `RecordLocks.holds_drop` — what the operations do.
* `RecordLocks.Holds.alone` — a write lock excludes the locks of all other processes.
-/

namespace Swinx

/-- The mode of a record lock. -/
inductive LockMode where
  /-- `F_RDLCK` -/
  | shared
  /-- `F_WRLCK` -/
  | exclusive
  deriving DecidableEq, Repr

/-- The record locks on one file. -/
structure RecordLocks (P : Type*) where
  /-- The processes that have a lock, with its mode. -/
  held : List (P × LockMode)
  /-- Each process has one lock, and only read locks coexist. -/
  compatible : held.Pairwise fun a b => a.1 ≠ b.1 ∧ a.2 = .shared ∧ b.2 = .shared

namespace RecordLocks

variable {P : Type*}

/-- The process `p` has a lock of mode `m`. -/
def Holds (l : RecordLocks P) (p : P) (m : LockMode) : Prop := (p, m) ∈ l.held

/-- A file nobody has locked. -/
def empty : RecordLocks P := ⟨[], .nil⟩

/-- **A write lock is alone.** -/
theorem Holds.alone {l : RecordLocks P} {p q : P} {m : LockMode} (hp : l.Holds p .exclusive)
    (hq : l.Holds q m) : q = p := by
  by_contra hne
  have hpair : (q, m) ≠ (p, .exclusive) := fun h => hne (Prod.ext_iff.1 h).1
  have hsymm : Std.Symm fun a b : P × LockMode => a.1 ≠ b.1 ∧ a.2 = .shared ∧ b.2 = .shared :=
    ⟨fun _ _ h => ⟨h.1.symm, h.2.2, h.2.1⟩⟩
  have h := l.compatible.forall hq hp hpair
  exact absurd h.2.2 (by simp)

variable [DecidableEq P]

/-- The lock of `p` is dropped: `F_UNLCK`, or `close` of a descriptor of the file. -/
def drop (l : RecordLocks P) (p : P) : RecordLocks P :=
  ⟨l.held.filter fun a => a.1 ≠ p, l.compatible.filter _⟩

theorem holds_drop {l : RecordLocks P} {p q : P} {m : LockMode} :
    (l.drop p).Holds q m ↔ l.Holds q m ∧ q ≠ p := by
  simp [Holds, drop]

/-- A lock of mode `m` can be given to `p`: the locks of the others are compatible with it. -/
def Grantable (l : RecordLocks P) (p : P) (m : LockMode) : Prop :=
  ∀ a ∈ l.held, a.1 ≠ p → m = .shared ∧ a.2 = .shared

instance (l : RecordLocks P) (p : P) (m : LockMode) : Decidable (l.Grantable p m) :=
  inferInstanceAs (Decidable (∀ a ∈ l.held, a.1 ≠ p → m = .shared ∧ a.2 = .shared))

/-- `p` gets a lock of mode `m` in place of the one it has. -/
def grant (l : RecordLocks P) (p : P) (m : LockMode) (h : l.Grantable p m) : RecordLocks P where
  held := (p, m) :: (l.drop p).held
  compatible := by
    refine List.pairwise_cons.2 ⟨fun a ha => ?_, (l.drop p).compatible⟩
    obtain ⟨hmem, hne⟩ := holds_drop.1 ha
    exact ⟨hne.symm, h a hmem hne⟩

/-- `fcntl(F_SETLKW)` of `p`; `none` while it has to wait. -/
def setlkw (l : RecordLocks P) (p : P) (m : LockMode) : Option (RecordLocks P) :=
  if h : l.Grantable p m then some (l.grant p m h) else none

theorem holds_of_setlkw {l l' : RecordLocks P} {p q : P} {m m' : LockMode}
    (h : l.setlkw p m = some l') :
    l'.Holds q m' ↔ q = p ∧ m' = m ∨ l.Holds q m' ∧ q ≠ p := by
  unfold setlkw at h
  split_ifs at h with hg
  cases h
  have : (l.grant p m hg).Holds q m' ↔ (q, m') = (p, m) ∨ (l.drop p).Holds q m' :=
    List.mem_cons
  rw [this, holds_drop, Prod.mk.injEq]

end RecordLocks

end Swinx
