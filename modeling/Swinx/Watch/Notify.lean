import Mathlib.Logic.Function.Basic
import Mathlib.Data.List.Chain
import Swinx.LTS.Basic
import Swinx.Posix.DirTree

/-!
# Watched directories

A recursive change notification has one inotify watch for every directory of a tree, and two maps
between the watch descriptors and the paths.  The kernel queues an event when a directory is
created, deleted or moved in a directory that is watched; the events are read in order, and each
of them adds or removes the watches of a subtree.  Between two events the file system may change.

Paths are the names below the watched directory, which is at `W`; the code's strings are `render`ed
from them, different ones from different paths (`render_injective`).  The filter of the notification
has the names of directories; `inotify_add_watch` fails for directories that do not exist and for no
others (there is no `EACCES` and no `ENOSPC`), and descriptors are not used again.

* `process` — an event; `next` : the operations of the file system, and the events one by one.
* `Sound` — the maps are inverse, directories are watched by their paths, nothing else is kept.
* `Orderly` — nothing is renamed over a directory, no name begins with the name of a sibling that is
  removed, and no directory is added while it is watched by another path.
-/

namespace Swinx

namespace Watch

/-! ### Paths -/

/-- The name of a directory. -/
structure Name where
  chars : List Char
  ne_nil : chars ≠ []
  noSlash : '/' ∉ chars
  deriving DecidableEq, Repr

/-- The names from one directory to another. -/
abbrev Path := List Name

/-- A path as the code has it, without the path of the watched directory. -/
def render (p : Path) : List Char := p.flatMap fun n => '/' :: n.chars

@[simp] theorem render_nil : render [] = [] := rfl

theorem render_cons (n : Name) (p : Path) : render (n :: p) = '/' :: (n.chars ++ render p) := rfl

theorem render_append (p q : Path) : render (p ++ q) = render p ++ render q := List.flatMap_append

theorem render_above {p q : Path} (h : p <+: q) : render p <+: render q := by
  obtain ⟨r, rfl⟩ := h
  rw [render_append]
  exact List.prefix_append _ _

theorem takeWhile_render (n : Name) (p : Path) :
    (n.chars ++ render p).takeWhile (· ≠ '/') = n.chars := by
  have hno : ∀ c ∈ n.chars, decide (c ≠ '/') = true := fun c hc => by
    simpa using fun h : c = '/' => n.noSlash (h ▸ hc)
  rw [List.takeWhile_append_of_pos hno]
  cases p with
  | nil => simp
  | cons m p => simp [render_cons]

theorem render_injective : Function.Injective render := by
  intro p
  induction p with
  | nil =>
    intro q h
    cases q with
    | nil => rfl
    | cons m q => simp [render_cons] at h
  | cons n p ih =>
    intro q h
    cases q with
    | nil => simp [render_cons] at h
    | cons m q =>
      rw [render_cons, render_cons, List.cons_inj_right] at h
      have hchars : n.chars = m.chars := by
        rw [← takeWhile_render n p, h, takeWhile_render]
      rw [hchars] at h
      have hname : n = m := by
        cases n
        cases m
        simpa using hchars
      rw [hname, ih (List.append_cancel_left h)]

/-! ### The kernel -/

/-- The watches of an inotify instance: descriptors and inodes. -/
structure Marks where
  wd : ℕ → Option ℕ
  inode : ℕ → Option ℕ
  /-- The next descriptor. -/
  fresh : ℕ
  inverse : ∀ i w, wd i = some w ↔ inode w = some i
  lt_fresh : ∀ i w, wd i = some w → w < fresh

namespace Marks

/-- No watch. -/
def empty : Marks := ⟨fun _ => none, fun _ => none, 1, by simp, by simp⟩

/-- `inotify_add_watch` of an inode that is not watched. -/
def add (k : Marks) (i : ℕ) (hi : k.wd i = none) : Marks where
  wd := Function.update k.wd i (some k.fresh)
  inode := Function.update k.inode k.fresh (some i)
  fresh := k.fresh + 1
  inverse j w := by
    by_cases hj : j = i <;> by_cases hw : w = k.fresh
    · simp [hj, hw]
    · subst hj
      have : k.inode w ≠ some j := fun h => by simp [(k.inverse j w).2 h] at hi
      simp [hw, Ne.symm hw, this]
    · subst hw
      have : k.wd j ≠ some k.fresh := fun h => lt_irrefl _ (k.lt_fresh j _ h)
      simp [hj, Ne.symm hj, this]
    · simp [hj, hw, k.inverse]
  lt_fresh j w h := by
    by_cases hj : j = i
    · simp only [hj, Function.update_self, Option.some.injEq] at h
      omega
    · exact Nat.lt_succ_of_lt (k.lt_fresh j w (by simpa [hj] using h))

/-- The watch of the inode ends. -/
def remove (k : Marks) (i : ℕ) : Marks where
  wd := Function.update k.wd i none
  inode w := if k.inode w = some i then none else k.inode w
  fresh := k.fresh
  inverse j w := by
    by_cases hj : j = i
    · subst hj
      by_cases hw : k.inode w = some j <;> simp [hw]
    · by_cases hw : k.inode w = some i
      · simp [hj, hw, k.inverse, Ne.symm hj]
      · simp [hj, hw, k.inverse]
  lt_fresh j w h := by
    by_cases hj : j = i
    · simp [hj] at h
    · exact k.lt_fresh j w (by simpa [hj] using h)

end Marks

/-- The kinds of events. -/
inductive Kind
  | create
  | delete
  | movedFrom
  | movedTo
  | ignored
  deriving DecidableEq, Repr

/-- A directory is there after the event. -/
def Kind.adds : Kind → Bool
  | .create | .movedTo => true
  | _ => false

/-- An `inotify_event` of a directory. -/
structure Event where
  wd : ℕ
  /-- `none` has the length 0. -/
  name : Option Name
  kind : Kind
  /-- The inode of the directory. -/
  dir : ℕ
  deriving DecidableEq, Repr

/-! ### The notification -/

/-- The file system, the inotify instance and the `NotifyHandle`. -/
structure State where
  tree : DirTree Name
  marks : Marks
  queue : List Event
  mapWdPath : ℕ → Option Path
  mapPathWd : List (Path × ℕ)

/-- `mapPathWd.find(path)` -/
def State.pathWd (s : State) (p : Path) : Option ℕ :=
  (s.mapPathWd.find? fun x => x.1 = p).map (·.2)

variable (W : Path)

/-- `addWatch`; a directory that exists can be watched, that is, it may be read and the limit of the
user's watches is not reached. -/
def addWatch (s : State) (p : Path) : State :=
  if s.pathWd p ≠ none then s
  else
    match s.tree.inode (W ++ p) with
    | none => s
    | some i =>
      match hi : s.marks.wd i with
      | some wd =>
        -- `inotify_add_watch` returns the descriptor that the directory has.
        { s with
          mapWdPath := Function.update s.mapWdPath wd (some p)
          mapPathWd := s.mapPathWd ++ [(p, wd)] }
      | none =>
        { s with
          marks := s.marks.add i hi
          mapWdPath := Function.update s.mapWdPath s.marks.fresh (some p)
          mapPathWd := s.mapPathWd ++ [(p, s.marks.fresh)] }

/-- `inotify_rm_watch` -/
def rmWatch (s : State) (wd : ℕ) : State :=
  match s.marks.inode wd with
  | none => s
  | some i => { s with marks := s.marks.remove i, queue := s.queue ++ [⟨wd, none, .ignored, i⟩] }

/-- `removeWatch` -/
def removeWatch (s : State) (wd : ℕ) : State :=
  match s.mapWdPath wd with
  | none => s
  | some p =>
    rmWatch { s with
      mapPathWd := s.mapPathWd.filter fun x => x.1 ≠ p
      mapWdPath := Function.update s.mapWdPath wd none } wd

/-- `removeWatchByPath` -/
def removeWatchByPath (s : State) (p : Path) : State :=
  match s.pathWd p with
  | none => s
  | some wd =>
    rmWatch { s with
      mapPathWd := s.mapPathWd.filter fun x => x.1 ≠ p
      mapWdPath := Function.update s.mapWdPath wd none } wd

/-- The directories that `add_path_watch_recursive` comes to. -/
def State.under (s : State) (p : Path) : List Path :=
  (s.tree.paths.filter fun q => W ++ p <+: q).map fun q => q.drop W.length

/-- `add_path_watch_recursive` -/
def add_path_watch_recursive (s : State) (p : Path) : State :=
  (s.under W p).foldl (addWatch W) s

/-- The paths that `remove_path_watch_recursive` removes: those whose strings begin with that of
`p`. -/
def State.toRemove (s : State) (p : Path) : List Path :=
  (s.mapPathWd.map (·.1)).filter fun q => render p <+: render q

/-- `remove_path_watch_recursive` -/
def remove_path_watch_recursive (s : State) (p : Path) : State :=
  (s.toRemove p).foldl removeWatchByPath s

/-- An event of `FindNextChangeNotification`. -/
def process (s : State) (event : Event) : State :=
  match s.mapWdPath event.wd with
  | none => s
  | some parentPath =>
    match event.name with
    | none => s
    | some name =>
      match event.kind with
      | .create | .movedTo => add_path_watch_recursive W s (parentPath ++ [name])
      | .delete | .movedFrom => remove_path_watch_recursive s (parentPath ++ [name])
      | .ignored => removeWatch s event.wd

/-- `FindFirstChangeNotificationA` of the directory `W`. -/
def start (tree : DirTree Name) : State :=
  add_path_watch_recursive W ⟨tree, .empty, [], fun _ => none, []⟩ []

/-- The event of the name `n` in the directory `p`, if that is watched. -/
def State.notify (s : State) (p : Path) (n : Name) (kind : Kind) (i : ℕ) : List Event :=
  match (s.tree.inode p).bind s.marks.wd with
  | none => []
  | some w => [⟨w, some n, kind, i⟩]

/-- The event for the end of the watch of a directory that is deleted. -/
def State.ignored (s : State) (i : ℕ) : List Event :=
  match s.marks.wd i with
  | none => []
  | some w => [⟨w, none, .ignored, i⟩]

/-- The operations of the file system, by paths from its root, and the next event. -/
inductive Act
  | mkdir (p : Path) (n : Name)
  | rmdir (p : Path) (n : Name)
  | rename (p : Path) (n : Name) (q : Path) (m : Name)
  | process
  deriving DecidableEq, Repr

/-- One step. -/
def next (s : State) : Act → Option State
  | .mkdir p n =>
    if h : s.tree.inode p ≠ none ∧ s.tree.inode (p ++ [n]) = none then
      some { s with
        tree := s.tree.mkdir p n h.1
        queue := s.queue ++ s.notify p n .create s.tree.fresh }
    else none
  | .rmdir p n =>
    match s.tree.inode (p ++ [n]) with
    | none => none
    | some i =>
      if h : s.tree.Empty (p ++ [n]) then
        some { s with
          tree := s.tree.rmdir (p ++ [n]) h
          marks := s.marks.remove i
          queue := s.queue ++ (s.notify p n .delete i ++ s.ignored i) }
      else none
  | .rename p n q m =>
    match s.tree.inode (p ++ [n]) with
    | none => none
    | some i =>
      let events := s.notify p n .movedFrom i ++ s.notify q m .movedTo i
      if h : s.tree.inode q ≠ none ∧ ¬ p ++ [n] <+: q ++ [m] then
        if hfree : s.tree.inode (q ++ [m]) = none then
          some { s with
            tree := s.tree.rename (p ++ [n]) q m h.1 hfree h.2
            queue := s.queue ++ events }
        else
          -- An empty directory is replaced.
          if hempty : s.tree.Empty (q ++ [m]) then
            match s.tree.inode (q ++ [m]) with
            | none => none
            | some j =>
              if hq : (s.tree.rmdir (q ++ [m]) hempty).inode q ≠ none ∧
                  (s.tree.rmdir (q ++ [m]) hempty).inode (q ++ [m]) = none then
                some { s with
                  tree := (s.tree.rmdir (q ++ [m]) hempty).rename (p ++ [n]) q m hq.1 hq.2 h.2
                  marks := s.marks.remove j
                  queue := s.queue ++ (events ++ s.ignored j) }
              else none
          else none
      else none
  | .process =>
    match s.queue with
    | [] => none
    | event :: queue => some (process W { s with queue := queue } event)

/-- The notification as a transition system. -/
def lts : LTS State Act := ⟨next W⟩

/-- The creation or a move of the directory is not processed. -/
def State.Pending (s : State) (i : ℕ) : Prop := ∃ e ∈ s.queue, e.kind.adds = true ∧ e.dir = i

/-- **The maps are right.** -/
structure Sound (s : State) : Prop where
  inverse : ∀ w p, s.mapWdPath w = some p ↔ s.pathWd p = some w
  /-- A directory is watched under its path when its creation and its moves, and those of the
  directories that it is in, are processed. -/
  watched : ∀ p i, s.tree.inode (W ++ p) = some i →
    (∀ q j, q <+: p → s.tree.inode (W ++ q) = some j → ¬ s.Pending j) →
    ∃ w, s.pathWd p = some w ∧ s.marks.wd i = some w
  /-- A path that is kept is that of the watched directory, or an event that is not processed
  removes it. -/
  kept : ∀ p w, s.pathWd p = some w →
    (∃ i, s.tree.inode (W ++ p) = some i ∧ s.marks.wd i = some w) ∨
      ∃ e ∈ s.queue, e.kind.adds = false ∧ ∃ q n, e.name = some n ∧
        s.mapWdPath e.wd = some q ∧ q ++ [n] <+: p

/-- **The good steps.** -/
def Orderly (s : State) : Act → Prop
  | .mkdir _ _ => True
  /- The watched directory stays. -/
  | .rmdir p n => ¬ p ++ [n] <+: W
  /- It stays where it is, and nothing is replaced. -/
  | .rename p n q m => ¬ p ++ [n] <+: W ∧ s.tree.inode (q ++ [m]) = none
  | .process => ∀ e ∈ s.queue.head?, ∀ q ∈ s.mapWdPath e.wd, ∀ n ∈ e.name,
    if e.kind.adds then
      /- No directory below the path is watched under another path. -/
      ∀ p ∈ s.under W (q ++ [n]), s.pathWd p = none →
        ∀ i ∈ s.tree.inode (W ++ p), s.marks.wd i = none
    else
      /- Only the subtree has strings that begin with that of the path. -/
      ∀ p ∈ s.toRemove (q ++ [n]), q ++ [n] <+: p

instance decidableOrderly (s : State) (act : Act) : Decidable (Orderly W s act) := by
  cases act <;> unfold Orderly <;> infer_instance

end Watch

end Swinx
