import Mathlib.Data.Option.Basic
import Mathlib.Logic.Function.Basic
import Swinx.Data.CString

/-!
# Files and the calls that change them

A file system maps paths to the contents of files.  Every call says how it went, so what the
environment decides (whether a call fails, and how much of a buffer has reached the file) is an
argument of the call.
-/

namespace Swinx

/-- The files by their paths. -/
abbrev FileSystem := Bytes → Option Bytes

namespace FileSystem

/-- The file at `p` has these contents. -/
def set (fs : FileSystem) (p : Bytes) (contents : Bytes) : FileSystem :=
  Function.update fs p (some contents)

/-- The file at `p` is gone. -/
def drop (fs : FileSystem) (p : Bytes) : FileSystem := Function.update fs p none

@[simp] theorem set_self (fs : FileSystem) (p contents : Bytes) :
    fs.set p contents p = some contents :=
  Function.update_self ..

theorem set_of_ne {fs : FileSystem} {p q contents : Bytes} (h : q ≠ p) :
    fs.set p contents q = fs q :=
  Function.update_of_ne h ..

@[simp] theorem drop_self (fs : FileSystem) (p : Bytes) : fs.drop p p = none :=
  Function.update_self ..

theorem drop_of_ne {fs : FileSystem} {p q : Bytes} (h : q ≠ p) : fs.drop p q = fs q :=
  Function.update_of_ne h ..

/-- How `remove` went. -/
inductive RemoveResult
  | ok
  /-- There is no such file. -/
  | enoent
  /-- Another error; nothing has changed. -/
  | failed
  deriving DecidableEq, Repr

/-- `remove` -/
def remove (fs : FileSystem) (p : Bytes) : RemoveResult → Option FileSystem
  | .ok => if (fs p).isSome then some (fs.drop p) else none
  | .enoent => if (fs p).isNone then some fs else none
  | .failed => some fs

/-- `rename` of an existing file; it replaces the file at `q`. -/
def rename (fs : FileSystem) (p q : Bytes) : Bool → Option FileSystem
  | true => (fs p).map fun contents => (fs.drop p).set q contents
  | false => some fs

/-- **What `remove` can do to a file.** -/
theorem remove_eq_some {fs fs' : FileSystem} {p : Bytes} {result : RemoveResult}
    (h : fs.remove p result = some fs') :
    result = .ok ∧ (fs p).isSome ∧ fs' = fs.drop p ∨
      result ≠ .ok ∧ (result = .enoent → fs p = none) ∧ fs' = fs := by
  cases result with
  | ok =>
    obtain ⟨hp, he⟩ := Option.ite_none_right_eq_some.1 h
    exact .inl ⟨rfl, hp, (Option.some.inj he).symm⟩
  | enoent =>
    obtain ⟨hp, he⟩ := Option.ite_none_right_eq_some.1 h
    exact .inr ⟨by simp, fun _ => Option.isNone_iff_eq_none.1 hp, (Option.some.inj he).symm⟩
  | failed => exact .inr ⟨by simp, by simp, (Option.some.inj h).symm⟩

theorem apply_of_remove {fs fs' : FileSystem} {p q : Bytes} {result : RemoveResult}
    (h : fs.remove p result = some fs') (hq : q ≠ p) : fs' q = fs q := by
  obtain ⟨-, -, rfl⟩ | ⟨-, -, rfl⟩ := remove_eq_some h
  · exact drop_of_ne hq
  · rfl

end FileSystem

end Swinx
