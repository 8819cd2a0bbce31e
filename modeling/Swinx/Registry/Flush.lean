import Swinx.LTS.Basic
import Swinx.Posix.FileSystem

/-!
# Writing the database file

After every change the registry writes the whole database with `writeFileAtomically`: to a
temporary file first, which then takes the place of the old one.  The function is modelled as the
calls it makes on the file system, any of which may fail, and the process may stop after each.
The old file is removed before the new one is renamed, so there is a moment without a file.

* `intact_iff` — the file is intact at the end of a run exactly if the new file has been renamed
  whenever the old one has been removed.
-/

namespace Swinx

namespace Registry

namespace Flush

/-- Where `writeFileAtomically` is. -/
inductive Pc
  | fopen
  | fwrite
  | fclose (written : ℕ)
  | remove
  | rename
  /-- The temporary file is removed before `FALSE` is returned. -/
  | cleanUp
  | returned (result : Bool)
  deriving DecidableEq, Repr

/-- A call on the file system and how it went. -/
inductive Step
  | fopen (ok : Bool)
  /-- `fwrite` takes `written` bytes, of which `flushed` are in the file. -/
  | fwrite (written flushed : ℕ)
  | fclose (ok : Bool) (flushed : ℕ)
  | removePath (result : FileSystem.RemoveResult)
  | rename (ok : Bool)
  | removeTmp (result : FileSystem.RemoveResult)
  deriving DecidableEq, Repr

/-- The file system and the place of the process. -/
structure State where
  fs : FileSystem
  pc : Pc

/-- The name of the temporary file. -/
def tmp (path : Bytes) : Bytes := path ++ ascii ".tmp"

/-- `writeFileAtomically` is called. -/
def start (path : Bytes) (fs : FileSystem) : State :=
  ⟨fs, if path = [] then .returned false else .fopen⟩

/-- One call of `writeFileAtomically`. -/
def next (path content : Bytes) (s : State) : Step → Option State
  | .fopen ok =>
    if s.pc = .fopen then
      some (if ok then ⟨s.fs.set (tmp path) [], .fwrite⟩ else ⟨s.fs, .returned false⟩)
    else none
  | .fwrite written flushed =>
    if s.pc = .fwrite ∧ written ≤ content.length ∧ flushed ≤ written then
      some ⟨s.fs.set (tmp path) (content.take flushed), .fclose written⟩
    else none
  | .fclose ok flushed =>
    match s.pc with
    | .fclose written =>
      if flushed ≤ written ∧ (ok = true → flushed = written) then
        some ⟨s.fs.set (tmp path) (content.take flushed),
          if ok = true ∧ written = content.length then .remove else .cleanUp⟩
      else none
    | _ => none
  | .removePath result =>
    if s.pc = .remove then
      (s.fs.remove path result).map fun fs => ⟨fs, if result = .failed then .cleanUp else .rename⟩
    else none
  | .rename ok =>
    if s.pc = .rename then
      (s.fs.rename (tmp path) path ok).map fun fs =>
        ⟨fs, if ok = true then .returned true else .cleanUp⟩
    else none
  | .removeTmp result =>
    if s.pc = .cleanUp then
      (s.fs.remove (tmp path) result).map fun fs => ⟨fs, .returned false⟩
    else none

/-- `writeFileAtomically` as a transition system. -/
def lts (path content : Bytes) : LTS State Step := ⟨next path content⟩

/-- **The file is intact**: it has the old content or the new one, and the old one if the function
has returned `FALSE`. -/
def Intact (path old new : Bytes) (s : State) : Prop :=
  (s.fs path = some old ∨ s.fs path = some new) ∧
    (s.pc = .returned false → s.fs path = some old)

theorem path_ne_tmp (path : Bytes) : path ≠ tmp path := by
  intro h
  have := congrArg List.length h
  simp [tmp, ascii] at this

/-- The old file has been removed. -/
def Removed (steps : List Step) : Prop := .removePath .ok ∈ steps

/-- The new file has been renamed. -/
def Renamed (steps : List Step) : Prop := .rename true ∈ steps

/-- What is known after some steps, by the place of the process. -/
def Inv (path old new : Bytes) (steps : List Step) (s : State) : Prop :=
  match s.pc with
  | .fopen | .fwrite | .fclose _ => s.fs path = some old ∧ ¬ Removed steps ∧ ¬ Renamed steps
  | .remove =>
    s.fs path = some old ∧ s.fs (tmp path) = some new ∧ ¬ Removed steps ∧ ¬ Renamed steps
  | .rename =>
    s.fs path = none ∧ s.fs (tmp path) = some new ∧ Removed steps ∧ ¬ Renamed steps
  | .cleanUp | .returned false =>
    (s.fs path = some old ∧ ¬ Removed steps ∨ s.fs path = none ∧ Removed steps) ∧ ¬ Renamed steps
  | .returned true => s.fs path = some new ∧ Renamed steps

theorem inv_start {path old new : Bytes} {fs : FileSystem} (h : fs path = some old) :
    Inv path old new [] (start path fs) := by
  unfold start
  split_ifs <;> simp [Inv, Removed, Renamed, h]

/-- **Every call keeps the invariant.** -/
theorem Inv.next {path old new : Bytes} {steps : List Step} {s s' : State} {step : Step}
    (h : Inv path old new steps s) (hnext : next path new s step = some s') :
    Inv path old new (steps ++ [step]) s' := by
  have hne := path_ne_tmp path
  obtain ⟨fs, pc⟩ := s
  cases step with
  | fopen ok =>
    obtain ⟨rfl, he⟩ := Option.ite_none_right_eq_some.1 hnext
    cases he
    cases ok <;> simp_all [Inv, Removed, Renamed, FileSystem.set_of_ne]
  | fwrite written flushed =>
    obtain ⟨⟨rfl, -⟩, he⟩ := Option.ite_none_right_eq_some.1 hnext
    cases he
    simp_all [Inv, Removed, Renamed, FileSystem.set_of_ne]
  | fclose ok flushed =>
    simp only [Flush.next] at hnext
    split at hnext
    case h_2 => cases hnext
    case h_1 written =>
      obtain ⟨⟨-, hok⟩, he⟩ := Option.ite_none_right_eq_some.1 hnext
      cases he
      -- A complete file, or an error.
      by_cases hall : ok = true ∧ written = new.length
      · obtain rfl : flushed = new.length := (hok hall.1).trans hall.2
        simp_all [Inv, Removed, Renamed, FileSystem.set_of_ne]
      · rw [if_neg hall]
        simp_all [Inv, Removed, Renamed, FileSystem.set_of_ne]
  | removePath result =>
    obtain ⟨rfl, he⟩ := Option.ite_none_right_eq_some.1 hnext
    obtain ⟨fs', hfs', rfl⟩ := Option.map_eq_some_iff.1 he
    have htmp := FileSystem.apply_of_remove hfs' hne.symm
    obtain ⟨rfl, -, rfl⟩ | ⟨hok, hnone, rfl⟩ := FileSystem.remove_eq_some hfs'
    · simp_all [Inv, Removed, Renamed]
    · -- The file is there, so the call has failed.
      obtain ⟨hold, htmp', hremoved, hrenamed⟩ := h
      have hfailed : result = .failed := by
        cases result with
        | ok => exact absurd rfl hok
        | enoent => exact absurd (hold.symm.trans (hnone rfl)) (by simp)
        | failed => rfl
      subst hfailed
      simp_all [Inv, Removed, Renamed]
  | rename ok =>
    obtain ⟨rfl, he⟩ := Option.ite_none_right_eq_some.1 hnext
    obtain ⟨fs', hfs', rfl⟩ := Option.map_eq_some_iff.1 he
    cases ok with
    | true =>
      obtain ⟨contents, hcontents, rfl⟩ := Option.map_eq_some_iff.1 hfs'
      simp_all [Inv, Removed, Renamed]
    | false =>
      cases hfs'
      simp_all [Inv, Removed, Renamed]
  | removeTmp result =>
    obtain ⟨rfl, he⟩ := Option.ite_none_right_eq_some.1 hnext
    obtain ⟨fs', hfs', rfl⟩ := Option.map_eq_some_iff.1 he
    have hpath := FileSystem.apply_of_remove hfs' hne
    simp_all [Inv, Removed, Renamed]

theorem Inv.intact {path old new : Bytes} {steps : List Step} {s : State}
    (h : Inv path old new steps s) :
    Intact path old new s ↔ (Removed steps → Renamed steps) := by
  obtain ⟨fs, pc⟩ := s
  unfold Inv at h
  split at h
  case h_6 | h_7 =>
    obtain ⟨⟨hfs, hremoved⟩ | ⟨hfs, hremoved⟩, hrenamed⟩ := h <;> simp_all [Intact]
  all_goals simp_all [Intact]

/-- **When the database file survives.**  Wherever the process stops and whichever calls fail, the
file is intact exactly if the new one has been renamed in case the old one has been removed. -/
theorem intact_iff {path old new : Bytes} {fs : FileSystem} {steps : List Step} {s : State}
    (hold : fs path = some old) (hrun : (lts path new).run (start path fs) steps = some s) :
    Intact path old new s ↔ (Removed steps → Renamed steps) := by
  have h := LTS.run_history (I := Inv path old new) (inv_start hold)
    (fun _ _ _ _ hI hn => hI.next hn) hrun
  exact h.intact

/-- A directory with one database file. -/
def oneFile : FileSystem := fun p => if p = ascii "db" then some (ascii "old") else none

/-- The calls up to the removal of the old file. -/
def written : List Step :=
  [.fopen true, .fwrite 3 0, .fclose true 3, .removePath .ok]

theorem intact_written : ∃ s,
    (lts (ascii "db") (ascii "new")).run (start (ascii "db") oneFile) (written ++ [.rename true]) =
      some s ∧ s.pc = .returned true ∧ Intact (ascii "db") (ascii "old") (ascii "new") s := by
  have hold : oneFile (ascii "db") = some (ascii "old") := rfl
  have hrenamed : Renamed (written ++ [.rename true]) := by simp [Renamed]
  exact ⟨_, rfl, rfl,
    (@intact_iff _ _ _ _ (written ++ [.rename true]) _ hold rfl).2 fun _ => hrenamed⟩

/-- **A failing `rename` loses the database**: the function returns `FALSE`, and neither the old
content nor the new one is in any file. -/
theorem rename_loses : ∃ s,
    (lts (ascii "db") (ascii "new")).run (start (ascii "db") oneFile)
      (written ++ [.rename false, .removeTmp .ok]) = some s ∧ s.pc = .returned false ∧
    s.fs (ascii "db") = none ∧ s.fs (tmp (ascii "db")) = none ∧
    ¬ Intact (ascii "db") (ascii "old") (ascii "new") s := by
  refine ⟨_, rfl, rfl, by decide +kernel, by decide +kernel, fun h => ?_⟩
  exact absurd (h.2 rfl) (by decide +kernel)

end Flush

end Registry

end Swinx
