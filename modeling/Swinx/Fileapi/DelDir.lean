import Swinx.Posix.Pathname

/-!
# Deleting directories

`DelDir` and `remove_tree` delete a directory with everything in it.  They look at an entry with
`stat`, which follows a symbolic link, and go into what they take for a directory; names are joined
in a buffer of `MAX_PATH` bytes.  What the calls refuse, and when, is up to the environment.

* `contained_of_plain` — `DelDir` and `remove_tree` stay inside a plain tree.
* `file_lost_outside` — a file outside the directory is deleted over a link to its directory.
-/

namespace Swinx

namespace DelDir

open Vfs

variable {κ : Type*}

def MAX_PATH : ℕ := 1000

/-- `.` and `..` -/
def IsDots (c : Bytes) : Prop := c = [46] ∨ c = [46, 46]

instance decidableIsDots (c : Bytes) : Decidable (IsDots c) := inferInstanceAs (Decidable (_ ∨ _))

/-- The entries of a directory without `.` and `..`. -/
def children (fs : Vfs Bytes κ) (d : ℕ) : List (Bytes × ℕ) :=
  (fs.entries d).filter fun x => ¬IsDots x.1

/-- **A file system**: every directory has one place, and names are names. -/
structure FileTree (κ : Type*) where
  fs : Vfs Bytes κ
  height : ℕ
  depth : ℕ → ℕ
  /-- The entry of a directory. -/
  place : ℕ → ℕ × Bytes
  depth_le : ∀ d, depth d ≤ height
  child : ∀ d, ∀ x ∈ children fs d, fs.isDir x.2 →
    place x.2 = (d, x.1) ∧ depth x.2 = depth d + 1
  nodup : ∀ d, ((fs.entries d).map Prod.fst).Nodup
  name : ∀ d, ∀ x ∈ fs.entries d, x.1 ≠ [] ∧ slash ∉ x.1

/-- What the calls find: the file system, and how many calls there have been. -/
structure Sys (κ : Type*) where
  fs : Vfs Bytes κ
  calls : ℕ

/-- What the process has, and which of its calls are refused. -/
structure Env extends Start where
  deny : ℕ → Bool

namespace Env

variable (e : Env)

/-- `stat` -/
def stat (p : Bytes) (s : Sys κ) : Option ℕ × Sys κ :=
  (if e.deny s.calls then none else e.follow s.fs p, { s with calls := s.calls + 1 })

/-- `opendir`, and the names that `readdir` gives. -/
def opendir (p : Bytes) (s : Sys κ) : Option (List Bytes) × Sys κ :=
  (if e.deny s.calls then none
    else (e.follow s.fs p).bind fun d =>
      if s.fs.isDir d then some ((s.fs.entries d).map Prod.fst) else none,
    { s with calls := s.calls + 1 })

/-- The entry goes when it is of the right kind and no directory with something in it. -/
def removeIf (kind : Vfs Bytes κ → ℕ → Bool) (p : Bytes) (s : Sys κ) : ℤ × Sys κ :=
  match if e.deny s.calls then none else e.entryOf s.fs p with
  | none => (-1, { s with calls := s.calls + 1 })
  | some (d, c, j) =>
    if ¬IsDots c ∧ kind s.fs j ∧ children s.fs j = [] then
      (0, { fs := s.fs.without [(d, c)], calls := s.calls + 1 })
    else (-1, { s with calls := s.calls + 1 })

/-- `rmdir` -/
def rmdir (p : Bytes) (s : Sys κ) : ℤ × Sys κ := e.removeIf isDir p s

/-- `remove` -/
def remove (p : Bytes) (s : Sys κ) : ℤ × Sys κ := e.removeIf (fun _ _ => true) p s

/-- `snprintf(full_path, sizeof(full_path), "%s/%s", …)` -/
def fullPath (p c : Bytes) : Bytes := (joinPath p c).take (MAX_PATH - 1)

/-- The loop over the entries of a directory. -/
def deleteEntries (recurse : Bytes → Sys κ → Option (ℤ × Sys κ)) (p : Bytes) :
    List Bytes → Sys κ → Option (ℤ × Sys κ)
  | [], s => some (0, s)
  | c :: cs, s =>
    if IsDots c then deleteEntries recurse p cs s
    else
      match e.stat (fullPath p c) s with
      | (none, s) => some (-1, s)
      | (some i, s) =>
        match if s.fs.isDir i then recurse (fullPath p c) s
          else some (e.remove (fullPath p c) s) with
        | none => none
        | some (ret, s) => if ret = 0 then deleteEntries recurse p cs s else some (ret, s)

/-- Opens the directory, deletes its entries and then the directory. -/
def deleteDir (recurse : Bytes → Sys κ → Option (ℤ × Sys κ)) (p : Bytes) (s : Sys κ) :
    Option (ℤ × Sys κ) :=
  match e.opendir p s with
  | (none, s) => some (-1, s)
  | (some names, s) =>
    match e.deleteEntries recurse p names s with
    | none => none
    | some (ret, s) => some (if ret = 0 then e.rmdir p s else (ret, s))

/-- `delete_non_empty_dir`, with so many levels of recursion. -/
def deleteNonEmptyDir : ℕ → Bytes → Sys κ → Option (ℤ × Sys κ)
  | 0, _, _ => none
  | n + 1, p, s => e.deleteDir (deleteNonEmptyDir n) p s

/-- `DelDir(path, FALSE)` -/
def delDir (n : ℕ) (p : Bytes) (s : Sys κ) : Option (ℤ × Sys κ) :=
  match e.stat p s with
  | (none, s) => some (-1, s)
  | (some i, s) => if s.fs.isDir i then e.deleteNonEmptyDir n p s else some (e.remove p s)

/-- `remove_tree`, with so many levels of recursion. -/
def removeTree : ℕ → Bytes → Sys κ → Option (ℤ × Sys κ)
  | 0, _, _ => none
  | n + 1, p, s =>
    match e.stat p s with
    | (none, s) => some (-1, s)
    | (some i, s) =>
      if s.fs.isDir i then e.deleteDir (removeTree n) p s else some (e.remove p s)

end Env

/-! ### The tree -/

/-- The directories of a tree. -/
inductive Below (fs : Vfs Bytes κ) (d : ℕ) : ℕ → Prop
  | refl : Below fs d d
  | child {d' : ℕ} {x : Bytes × ℕ} : Below fs d d' → x ∈ children fs d' → fs.isDir x.2 →
    Below fs d x.2

/-- The directories of a tree, down to a level. -/
def dirs (fs : Vfs Bytes κ) : ℕ → ℕ → List ℕ
  | 0, d => [d]
  | n + 1, d =>
    d :: (children fs d).flatMap fun x => if fs.isDir x.2 then dirs fs n x.2 else []

/-- The entries of a tree in the order in which they are deleted, with their names. -/
def order (fs : Vfs Bytes κ) : ℕ → ℕ → Bytes → List ((ℕ × Bytes) × Bytes)
  | 0, _, _ => []
  | n + 1, d, p =>
    (children fs d).flatMap fun x =>
      (if fs.isDir x.2 then order fs n x.2 (joinPath p x.1) else []) ++
        [((d, x.1), joinPath p x.1)]

/-- The names fit the buffer, and a link leads to a file when its turn comes. -/
def Stays (e : Start) (fs : Vfs Bytes κ) :
    List (ℕ × Bytes) → List ((ℕ × Bytes) × Bytes) → Prop
  | _, [] => True
  | removed, ((d, c), p) :: rest =>
    (p.length < MAX_PATH ∧
      ((fs.step d c).any (fun j => (fs.linkOf j).isSome) = true →
        (e.follow (fs.without removed) p).any (fun i => !fs.isDir i) = true)) ∧
      Stays e fs (removed ++ [(d, c)]) rest

/-- The path names the directory `d`, in its place, and needs no entry of its tree. -/
def At (e : Start) (fs : Vfs Bytes κ) (n : ℕ) (p : Bytes) (q : ℕ) (c : Bytes) (d : ℕ) : Prop :=
  fs.isDir d ∧ ¬IsDots c ∧
    e.entryOf (fs.without ((order fs n d p).map Prod.fst)) p = some (q, c, d)

instance decidableStays (e : Start) (fs : Vfs Bytes κ) :
    ∀ removed l, Decidable (Stays e fs removed l)
  | _, [] => .isTrue trivial
  | removed, ((d, c), _) :: rest =>
    have := decidableStays e fs (removed ++ [(d, c)]) rest
    inferInstanceAs (Decidable (((_ : ℕ) < _ ∧ (_ = true → _ = true)) ∧ _))

/-- **A tree that is deleted as a whole.** -/
def Plain (t : FileTree κ) (e : Start) (p : Bytes) (q : ℕ) (c : Bytes) (d : ℕ) : Prop :=
  At e t.fs (t.height + 1) p q c d ∧ Stays e t.fs [] (order t.fs (t.height + 1) d p)

/-- **The deletion stays inside its tree**: it comes to an end, nothing but the entry `c` of `q` and
the entries below `d` is removed, and all of them are when nothing is refused. -/
def Contained (t : FileTree κ) (e : Env) (p : Bytes) (q : ℕ) (c : Bytes) (d : ℕ)
    (run : Option (ℤ × Sys κ)) : Prop :=
  ∃ ret s, run = some (ret, s) ∧
    (∃ removed, s.fs = t.fs.without removed ∧
      ∀ r ∈ removed, Below t.fs d r.1 ∨ r = (q, c)) ∧
    ((∀ k, e.deny k = false) →
      ret = 0 ∧ e.entryOf s.fs p = none ∧ ∀ d', Below t.fs d d' → children s.fs d' = [])

/-! ### Facts about the tree -/

/-- The part of the order that belongs to one entry. -/
def turn (fs : Vfs Bytes κ) (n d : ℕ) (p : Bytes) (x : Bytes × ℕ) : List ((ℕ × Bytes) × Bytes) :=
  (if fs.isDir x.2 then order fs n x.2 (joinPath p x.1) else []) ++
    [((d, x.1), joinPath p x.1)]

theorem order_succ (fs : Vfs Bytes κ) (n d : ℕ) (p : Bytes) :
    order fs (n + 1) d p = (children fs d).flatMap (turn fs n d p) := rfl

theorem mem_dirs_self (fs : Vfs Bytes κ) (n d : ℕ) : d ∈ dirs fs n d := by
  cases n <;> simp [dirs]

theorem mem_dirs_child {fs : Vfs Bytes κ} {n d i : ℕ} {x : Bytes × ℕ} (hx : x ∈ children fs d)
    (hdir : fs.isDir x.2) (hi : i ∈ dirs fs n x.2) : i ∈ dirs fs (n + 1) d := by
  refine List.mem_cons_of_mem _ (List.mem_flatMap.2 ⟨x, hx, ?_⟩)
  rwa [if_pos hdir]

theorem mem_turn {fs : Vfs Bytes κ} {n d : ℕ} {p : Bytes} {x : Bytes × ℕ}
    {r : (ℕ × Bytes) × Bytes} (hr : r ∈ turn fs n d p x) :
    fs.isDir x.2 ∧ r ∈ order fs n x.2 (joinPath p x.1) ∨ r.1 = (d, x.1) := by
  unfold turn at hr
  split_ifs at hr with hdir
  · refine (List.mem_append.1 hr).imp (fun h => ⟨hdir, h⟩) fun h => ?_
    rw [List.mem_singleton.1 h]
  · exact .inr (by rw [List.mem_singleton.1 hr])

theorem mem_dirs_of_order {fs : Vfs Bytes κ} {n d : ℕ} {p : Bytes} {r : (ℕ × Bytes) × Bytes}
    (hr : r ∈ order fs n d p) : r.1.1 ∈ dirs fs n d := by
  induction n generalizing d p with
  | zero => simp [order] at hr
  | succ n ih =>
    obtain ⟨x, hx, hr⟩ := List.mem_flatMap.1 hr
    rcases mem_turn hr with ⟨hdir, hr⟩ | hr
    · exact mem_dirs_child hx hdir (ih hr)
    · rw [hr]
      exact mem_dirs_self fs (n + 1) d

theorem Below.trans {fs : Vfs Bytes κ} {a b c : ℕ} (h : Below fs a b) (h' : Below fs b c) :
    Below fs a c := by
  induction h' with
  | refl => exact h
  | child _ hx hdir ih => exact ih.child hx hdir

theorem below_of_mem_dirs {fs : Vfs Bytes κ} {n d i : ℕ} (hi : i ∈ dirs fs n d) :
    Below fs d i := by
  induction n generalizing d with
  | zero =>
    rw [List.mem_singleton.1 hi]
    exact .refl
  | succ n ih =>
    rcases List.mem_cons.1 hi with rfl | hi
    · exact .refl
    · obtain ⟨x, hx, hi⟩ := List.mem_flatMap.1 hi
      split_ifs at hi with hdir
      · exact (Below.refl.child hx hdir).trans (ih hi)
      · simp at hi

namespace FileTree

variable (t : FileTree κ)

/-- The directory that holds a directory. -/
def parent (d : ℕ) : ℕ := (t.place d).1

variable {t}

theorem parent_of_child {d : ℕ} {x : Bytes × ℕ} (hx : x ∈ children t.fs d)
    (hdir : t.fs.isDir x.2) : t.parent x.2 = d := by
  rw [parent, (t.child d x hx hdir).1]

/-- A directory of a tree leads up to the directory of the tree. -/
theorem iterate_parent {n d i : ℕ} (hi : i ∈ dirs t.fs n d) :
    ∃ k, t.depth i = t.depth d + k ∧ t.parent^[k] i = d := by
  induction n generalizing d with
  | zero =>
    rw [List.mem_singleton.1 hi]
    exact ⟨0, rfl, rfl⟩
  | succ n ih =>
    rcases List.mem_cons.1 hi with rfl | hi
    · exact ⟨0, rfl, rfl⟩
    · obtain ⟨x, hx, hi⟩ := List.mem_flatMap.1 hi
      split_ifs at hi with hdir
      · obtain ⟨k, hk, hup⟩ := ih hi
        refine ⟨k + 1, ?_, ?_⟩
        · rw [hk, (t.child d x hx hdir).2]
          omega
        · rw [Function.iterate_succ_apply', hup, parent_of_child hx hdir]
      · simp at hi

theorem notMem_dirs_child {n d : ℕ} {x : Bytes × ℕ} (hx : x ∈ children t.fs d)
    (hdir : t.fs.isDir x.2) : d ∉ dirs t.fs n x.2 := by
  intro hd
  obtain ⟨k, hk, -⟩ := iterate_parent hd
  rw [(t.child d x hx hdir).2] at hk
  omega

theorem eq_of_mem_dirs {n d i : ℕ} {x y : Bytes × ℕ} (hx : x ∈ children t.fs d)
    (hxdir : t.fs.isDir x.2) (hy : y ∈ children t.fs d) (hydir : t.fs.isDir y.2)
    (hix : i ∈ dirs t.fs n x.2) (hiy : i ∈ dirs t.fs n y.2) : x = y := by
  obtain ⟨k, hk, hup⟩ := iterate_parent hix
  obtain ⟨l, hl, hup'⟩ := iterate_parent hiy
  have hxp := t.child d x hx hxdir
  have hyp := t.child d y hy hydir
  have hkl : k = l := by omega
  have hsame : x.2 = y.2 := by rw [← hup, ← hup', hkl]
  have hplace := hxp.1
  rw [hsame, hyp.1] at hplace
  exact Prod.ext (congrArg Prod.snd hplace).symm hsame

theorem children_nodup (t : FileTree κ) (d : ℕ) : ((children t.fs d).map Prod.fst).Nodup :=
  (t.nodup d).sublist (List.filter_sublist.map _)

/-- **No entry is deleted twice.** -/
theorem order_nodup (t : FileTree κ) (n d : ℕ) (p : Bytes) :
    ((order t.fs n d p).map Prod.fst).Nodup := by
  induction n generalizing d p with
  | zero => simp [order]
  | succ n ih =>
    rw [order_succ, List.map_flatMap, List.nodup_flatMap]
    constructor
    · intro x hx
      unfold turn
      split_ifs with hdir
      · rw [List.map_append, List.nodup_append]
        refine ⟨ih x.2 _, by simp, ?_⟩
        rintro r hr _ hr' rfl
        obtain ⟨y, hy, rfl⟩ := List.mem_map.1 hr
        have hyd := mem_dirs_of_order hy
        rw [show y.1 = (d, x.1) by simpa using hr'] at hyd
        exact notMem_dirs_child hx hdir hyd
      · simp
    · refine (List.pairwise_map.1 (t.children_nodup d)).imp_of_mem fun {x y} hx hy hne => ?_
      rintro r hrx hry
      obtain ⟨a, ha, rfl⟩ := List.mem_map.1 hrx
      obtain ⟨b, hb, hab⟩ := List.mem_map.1 hry
      rcases mem_turn ha with ⟨hxdir, ha⟩ | ha <;> rcases mem_turn hb with ⟨hydir, hb⟩ | hb
      · have hia := mem_dirs_of_order ha
        have hib := mem_dirs_of_order hb
        rw [hab] at hib
        exact hne (congrArg Prod.fst (eq_of_mem_dirs hx hxdir hy hydir hia hib))
      · have hia := mem_dirs_of_order ha
        rw [← hab, hb] at hia
        exact notMem_dirs_child hx hxdir hia
      · have hib := mem_dirs_of_order hb
        rw [hab, ha] at hib
        exact notMem_dirs_child hy hydir hib
      · rw [ha, hb] at hab
        exact hne (congrArg Prod.snd hab).symm

theorem mem_order_of_below {t : FileTree κ} {n d d' : ℕ} {p : Bytes}
    (hn : t.height < t.depth d + n) (h : Below t.fs d d') {x : Bytes × ℕ}
    (hx : x ∈ children t.fs d') : (d', x.1) ∈ (order t.fs n d p).map Prod.fst := by
  -- the order of a directory below is a part of the order
  have hpart : ∃ m p', t.height < t.depth d' + m ∧
      ∀ r ∈ order t.fs m d' p', r ∈ order t.fs n d p := by
    clear hx
    induction h with
    | refl => exact ⟨n, p, hn, fun _ h => h⟩
    | @child d' y hbelow hy hdir ih =>
      obtain ⟨m, p', hm, hsub⟩ := ih
      obtain ⟨m, rfl⟩ : ∃ k, m = k + 1 :=
        Nat.exists_eq_succ_of_ne_zero fun h0 => by have := t.depth_le d'; omega
      refine ⟨m, joinPath p' y.1, by rw [(t.child d' y hy hdir).2]; omega, fun r hr => hsub r ?_⟩
      refine List.mem_flatMap.2 ⟨y, hy, List.mem_append_left _ ?_⟩
      rwa [if_pos hdir]
  obtain ⟨m, p', hm, hsub⟩ := hpart
  obtain ⟨m, rfl⟩ : ∃ k, m = k + 1 :=
    Nat.exists_eq_succ_of_ne_zero fun h0 => by have := t.depth_le d'; omega
  refine List.mem_map.2 ⟨((d', x.1), joinPath p' x.1), hsub _ ?_, rfl⟩
  exact List.mem_flatMap.2 ⟨x, hx, List.mem_append_right _ (List.mem_singleton.2 rfl)⟩

theorem step_of_child {d : ℕ} {x : Bytes × ℕ} (hx : x ∈ children t.fs d) :
    t.fs.step d x.1 = some x.2 :=
  step_of_mem (t.nodup d) (List.mem_of_mem_filter hx)

end FileTree

/-! ### What a run does -/

variable {t : FileTree κ} {e : Env}

/-- The run has removed some of the entries of the order, all of them when it returns 0, and it does
so when nothing is refused. -/
def Ends (t : FileTree κ) (e : Env) (removed order : List (ℕ × Bytes))
    (r : Option (ℤ × Sys κ)) : Prop :=
  ∃ ret s now, r = some (ret, s) ∧ (∀ x ∈ now, x ∈ order) ∧
    s.fs = t.fs.without (removed ++ now) ∧ (ret = 0 → now = order) ∧
    ((∀ k, e.deny k = false) → ret = 0)

theorem Ends.done {removed order : List (ℕ × Bytes)} {s : Sys κ}
    (h : s.fs = t.fs.without (removed ++ order)) : Ends t e removed order (some (0, s)) :=
  ⟨0, s, order, rfl, fun _ hx => hx, h, fun _ => rfl, fun _ => rfl⟩

theorem Ends.refused {removed order : List (ℕ × Bytes)} {s : Sys κ}
    (h : s.fs = t.fs.without removed) {k : ℕ} (hk : e.deny k = true) :
    Ends t e removed order (some (-1, s)) := by
  refine ⟨-1, s, [], rfl, by simp, by rwa [List.append_nil], by simp, fun hdeny => ?_⟩
  rw [hdeny k] at hk
  cases hk

theorem Ends.andThen {removed order₁ : List (ℕ × Bytes)} {r : Option (ℤ × Sys κ)}
    (h : Ends t e removed order₁ r) (order₂ : List (ℕ × Bytes)) :
    (∃ s, r = some (0, s) ∧ s.fs = t.fs.without (removed ++ order₁) ∧
      ∀ r', Ends t e (removed ++ order₁) order₂ r' → Ends t e removed (order₁ ++ order₂) r') ∨
    ∃ ret s, ret ≠ 0 ∧ r = some (ret, s) ∧ Ends t e removed (order₁ ++ order₂) r := by
  obtain ⟨ret, s, now, hr, hsub, hfs, hall, hret⟩ := h
  by_cases h0 : ret = 0
  · subst h0
    obtain rfl := hall rfl
    refine .inl ⟨s, hr, hfs, ?_⟩
    rintro r' ⟨ret, s', now', hr', hsub', hfs', hall', hret'⟩
    refine ⟨ret, s', now ++ now', hr', fun x hx => ?_, ?_, fun h0 => by rw [hall' h0], hret'⟩
    · exact List.mem_append.2 ((List.mem_append.1 hx).imp_right (hsub' x))
    · rw [hfs', List.append_assoc]
  · exact .inr ⟨ret, s, h0, hr, ret, s, now, hr, fun x hx => List.mem_append_left _ (hsub x hx),
      hfs, fun h => absurd h h0, hret⟩

theorem children_without (fs : Vfs Bytes κ) (removed : List (ℕ × Bytes)) (d : ℕ) :
    children (fs.without removed) d =
      (children fs d).filter fun x => (d, x.1) ∉ removed := by
  unfold children
  rw [entries_without, List.filter_filter, List.filter_filter]
  exact List.filter_congr fun x _ => by simp [Bool.and_comm]

theorem children_eq_nil {fs : Vfs Bytes κ} {d : ℕ} (h : fs.isDir d = false) :
    children fs d = [] := by
  unfold isDir at h
  unfold children entries
  cases hd : fs d with
  | none => rfl
  | some node => cases node <;> simp_all

namespace Env

theorem stat_cases {p : Bytes} {s : Sys κ} {i : ℕ} (h : e.follow s.fs p = some i) :
    e.deny s.calls = true ∧ e.stat p s = (none, { s with calls := s.calls + 1 }) ∨
      e.stat p s = (some i, { s with calls := s.calls + 1 }) := by
  unfold stat
  cases hdeny : e.deny s.calls with
  | true => exact .inl ⟨rfl, by simp⟩
  | false => exact .inr (by simp [h])

theorem opendir_cases {p : Bytes} {s : Sys κ} {d : ℕ} (h : e.follow s.fs p = some d)
    (hd : s.fs.isDir d = true) :
    e.deny s.calls = true ∧ e.opendir p s = (none, { s with calls := s.calls + 1 }) ∨
      e.opendir p s =
        (some ((s.fs.entries d).map Prod.fst), { s with calls := s.calls + 1 }) := by
  unfold opendir
  cases hdeny : e.deny s.calls with
  | true => exact .inl ⟨rfl, by simp⟩
  | false => exact .inr (by simp [h, hd])

theorem removeIf_ends {kind : Vfs Bytes κ → ℕ → Bool} {p : Bytes} {s : Sys κ}
    {removed : List (ℕ × Bytes)} {d j : ℕ} {c : Bytes} (hfs : s.fs = t.fs.without removed)
    (hentry : e.entryOf s.fs p = some (d, c, j)) (hc : ¬IsDots c) (hkind : kind s.fs j = true)
    (hempty : children s.fs j = []) :
    Ends t e removed [(d, c)] (some (e.removeIf kind p s)) := by
  unfold removeIf
  cases hdeny : e.deny s.calls with
  | true => exact .refused hfs hdeny
  | false =>
    rw [if_neg (by simp), hentry]
    dsimp only
    rw [if_pos ⟨hc, hkind, hempty⟩]
    exact .done (by rw [← without_without, ← hfs])

theorem deleteEntries_filter (recurse : Bytes → Sys κ → Option (ℤ × Sys κ)) (p : Bytes)
    (names : List Bytes) (s : Sys κ) :
    e.deleteEntries recurse p names s =
      e.deleteEntries recurse p (names.filter fun c => ¬IsDots c) s := by
  induction names generalizing s with
  | nil => rfl
  | cons c cs ih =>
    by_cases hc : IsDots c
    · rw [deleteEntries, if_pos hc, ih, List.filter_cons_of_neg (by simp [hc])]
    · rw [deleteEntries, if_neg hc, List.filter_cons_of_pos (by simp [hc]), deleteEntries,
        if_neg hc]
      simp only [ih]

end Env

theorem stays_append {e : Start} {fs : Vfs Bytes κ} {removed : List (ℕ × Bytes)}
    {l₁ l₂ : List ((ℕ × Bytes) × Bytes)} :
    Stays e fs removed (l₁ ++ l₂) ↔
      Stays e fs removed l₁ ∧ Stays e fs (removed ++ l₁.map Prod.fst) l₂ := by
  induction l₁ generalizing removed with
  | nil => simp [Stays]
  | cons r l₁ ih =>
    obtain ⟨⟨d, c⟩, p⟩ := r
    simp only [List.cons_append, Stays, ih, List.map_cons, List.append_assoc, List.nil_append,
      and_assoc]

/-- **What a run deletes**: the entries of the directory in their order, and then its own. -/
def Deletes (t : FileTree κ) (e : Env) (n : ℕ) (run : Bytes → Sys κ → Option (ℤ × Sys κ)) :
    Prop :=
  ∀ (d q : ℕ) (p c : Bytes) (removed : List (ℕ × Bytes)) (s : Sys κ),
    t.height < t.depth d + n → t.fs.isDir d = true → ¬IsDots c →
    e.entryOf (t.fs.without (removed ++ (order t.fs n d p).map Prod.fst)) p = some (q, c, d) →
    (removed ++ ((order t.fs n d p).map Prod.fst ++ [(q, c)])).Nodup →
    Stays e.toStart t.fs removed (order t.fs n d p) → s.fs = t.fs.without removed →
    Ends t e removed ((order t.fs n d p).map Prod.fst ++ [(q, c)]) (run p s)

namespace Env

/-- **The turn of an entry**: `stat` shows what it is, and it is deleted with what is in it. -/
theorem turn_ends {n d : ℕ} {p : Bytes} {run : Bytes → Sys κ → Option (ℤ × Sys κ)}
    (hrun : Deletes t e n run) (hdepth : t.height < t.depth d + (n + 1)) {x : Bytes × ℕ}
    (hx : x ∈ children t.fs d) {removed : List (ℕ × Bytes)} {s : Sys κ}
    (hp : e.follow (t.fs.without (removed ++ (turn t.fs n d p x).map Prod.fst)) p = some d)
    (hnodup : (removed ++ (turn t.fs n d p x).map Prod.fst).Nodup)
    (hstays : Stays e.toStart t.fs removed (turn t.fs n d p x))
    (hfs : s.fs = t.fs.without removed) :
    e.deny s.calls = true ∧
        e.stat (fullPath p x.1) s = (none, { s with calls := s.calls + 1 }) ∨
      ∃ i, e.stat (fullPath p x.1) s = (some i, { s with calls := s.calls + 1 }) ∧
        ∀ s₁ : Sys κ, s₁.fs = s.fs →
          Ends t e removed ((turn t.fs n d p x).map Prod.fst)
            (if s₁.fs.isDir i then run (fullPath p x.1) s₁
              else some (e.remove (fullPath p x.1) s₁)) := by
  obtain ⟨hxmem, hxdots⟩ := List.mem_filter.1 hx
  have hxdots : ¬IsDots x.1 := by simpa using hxdots
  obtain ⟨hname, hslash⟩ := t.name d x hxmem
  obtain ⟨hinside, hlast⟩ := stays_append.1 hstays
  -- the entry is still there, and its name fits the buffer
  have hfull : fullPath p x.1 = joinPath p x.1 :=
    List.take_of_length_le (Nat.le_sub_one_of_lt hlast.1.1)
  have hnot : (d, x.1) ∉ removed := fun h =>
    (List.nodup_append.1 hnodup).2.2 _ h _
      (List.mem_map.2 ⟨_, List.mem_append_right _ (List.mem_singleton.2 rfl), rfl⟩) rfl
  have hstep : (t.fs.without removed).step d x.1 = some x.2 := by
    rw [step_without, if_neg hnot, FileTree.step_of_child hx]
  have hhere : e.follow (t.fs.without removed) p = some d :=
    Start.follow_mono (without_le_without _ fun _ h => List.mem_append_left _ h) hp
  have hentry : e.entryOf s.fs (joinPath p x.1) = some (d, x.1, x.2) := by
    rw [hfs]
    exact Start.entryOf_joinPath hhere hname hslash hstep
  rw [hfull]
  cases hdir : t.fs.isDir x.2 with
  | true =>
    -- a directory below
    have hfollow : e.follow s.fs (joinPath p x.1) = some x.2 :=
      Start.follow_of_entryOf hentry
        (by rw [hfs, linkOf_without, linkOf_eq_none_of_isDir hdir])
    refine (stat_cases hfollow).imp id fun hstat => ⟨x.2, hstat, fun s₁ hs₁ => ?_⟩
    have hturn : turn t.fs n d p x =
        order t.fs n x.2 (joinPath p x.1) ++ [((d, x.1), joinPath p x.1)] := by
      rw [turn, if_pos hdir]
    rw [hs₁, hfs, isDir_without, if_pos hdir, hturn, List.map_append]
    rw [hturn, List.map_append] at hnodup hp
    rw [if_pos hdir] at hinside
    have hbelow : e.follow (t.fs.without (removed ++
        (order t.fs n x.2 (joinPath p x.1)).map Prod.fst)) p = some d := by
      refine Start.follow_mono (without_le_without _ fun r hr => ?_) hp
      rw [← List.append_assoc]
      exact List.mem_append_left _ hr
    refine hrun x.2 d _ x.1 removed s₁ ?_ hdir hxdots ?_ hnodup hinside (hs₁.trans hfs)
    · rw [(t.child d x hx hdir).2]
      omega
    · refine Start.entryOf_joinPath hbelow hname hslash ?_
      rw [← List.append_assoc] at hnodup
      rw [step_without, if_neg fun h => (List.nodup_append.1 hnodup).2.2 _ h _ (by simp) rfl,
        FileTree.step_of_child hx]
  | false =>
    have hturn : turn t.fs n d p x = [((d, x.1), joinPath p x.1)] := by
      rw [turn, if_neg (by simp [hdir])]
      rfl
    rw [hturn] at hstays ⊢
    -- a file, or a link that leads to one
    obtain ⟨i, hfollow, hi⟩ : ∃ i, e.follow s.fs (joinPath p x.1) = some i ∧
        t.fs.isDir i = false := by
      cases hlink : t.fs.linkOf x.2 with
      | none =>
        exact ⟨x.2, Start.follow_of_entryOf hentry (by rw [hfs, linkOf_without, hlink]), hdir⟩
      | some link =>
        have hfile := hstays.1.2 (by rw [FileTree.step_of_child hx]; simp [hlink])
        obtain ⟨hsome, hnotDir⟩ := (Option.any_eq_true_iff_get _ _).1 hfile
        exact ⟨_, by rw [hfs]; exact (Option.some_get hsome).symm, by simpa using hnotDir⟩
    refine (stat_cases hfollow).imp id fun hstat => ⟨i, hstat, fun s₁ hs₁ => ?_⟩
    rw [hs₁, hfs, isDir_without, if_neg (by simp [hi])]
    refine removeIf_ends (hs₁.trans hfs) (by rw [hs₁, hentry]) hxdots rfl ?_
    rw [hs₁, hfs]
    exact children_eq_nil (by rw [isDir_without, hdir])

/-- **The loop over the entries**: each is deleted in its turn. -/
theorem deleteEntries_ends {n d : ℕ} {p : Bytes} {run : Bytes → Sys κ → Option (ℤ × Sys κ)}
    (hrun : Deletes t e n run) (hdepth : t.height < t.depth d + (n + 1))
    {xs : List (Bytes × ℕ)} (hxs : ∀ x ∈ xs, x ∈ children t.fs d) {removed : List (ℕ × Bytes)}
    {s : Sys κ}
    (hp : e.follow (t.fs.without
      (removed ++ (xs.flatMap (turn t.fs n d p)).map Prod.fst)) p = some d)
    (hnodup : (removed ++ (xs.flatMap (turn t.fs n d p)).map Prod.fst).Nodup)
    (hstays : Stays e.toStart t.fs removed (xs.flatMap (turn t.fs n d p)))
    (hfs : s.fs = t.fs.without removed) :
    Ends t e removed ((xs.flatMap (turn t.fs n d p)).map Prod.fst)
      (e.deleteEntries run p (xs.map Prod.fst) s) := by
  induction xs generalizing removed s with
  | nil => exact .done (by simpa [deleteEntries] using hfs)
  | cons x xs ih =>
    have hx := hxs x List.mem_cons_self
    have hxdots : ¬IsDots x.1 := by simpa using (List.mem_filter.1 hx).2
    rw [List.flatMap_cons, List.map_append] at hp hnodup ⊢
    rw [List.flatMap_cons, stays_append] at hstays
    rw [← List.append_assoc] at hp hnodup
    rw [List.map_cons, deleteEntries, if_neg hxdots]
    rcases turn_ends hrun hdepth hx
        (Start.follow_mono (without_le_without _ fun _ h => List.mem_append_left _ h) hp)
        (List.nodup_append.1 hnodup).1 hstays.1 hfs with
      ⟨hdeny, hstat⟩ | ⟨i, hstat, hturn⟩
    · rw [hstat]
      exact .refused hfs hdeny
    · rw [hstat]
      dsimp only
      rcases (hturn { s with calls := s.calls + 1 } rfl).andThen _ with
        ⟨s₁, hr, hfs₁, hnext⟩ | ⟨ret, s₁, hret, hr, hends⟩
      · rw [hr]
        exact hnext _ (ih (fun y hy => hxs y (List.mem_cons_of_mem _ hy)) hp hnodup hstays.2
          hfs₁)
      · rw [hr] at hends ⊢
        dsimp only
        rw [if_neg hret]
        exact hends

/-- **A directory is deleted** with what is in it. -/
theorem deleteDir_deletes {n : ℕ} {run : Bytes → Sys κ → Option (ℤ × Sys κ)}
    (hrun : Deletes t e n run) : Deletes t e (n + 1) (e.deleteDir run) := by
  intro d q p c removed s hdepth hdir hc hentry hnodup hstays hfs
  rw [← List.append_assoc] at hnodup
  have hfollow := Start.follow_of_entryOf hentry
    (by rw [linkOf_without, linkOf_eq_none_of_isDir hdir])
  have hhere : e.follow s.fs p = some d := by
    rw [hfs]
    exact Start.follow_mono (without_le_without _ fun _ h => List.mem_append_left _ h) hfollow
  rw [deleteDir]
  rcases opendir_cases hhere (by rw [hfs, isDir_without, hdir]) with ⟨hdeny, hopen⟩ | hopen
  · rw [hopen]
    exact .refused hfs hdeny
  rw [hopen]
  dsimp only
  -- nothing of the directory is gone yet
  have hnames : (((s.fs.entries d).map Prod.fst).filter fun c => ¬IsDots c) =
      (children t.fs d).map Prod.fst := by
    have hall : children s.fs d = children t.fs d := by
      rw [hfs, children_without]
      refine List.filter_eq_self.2 fun x hx => decide_eq_true fun h => ?_
      refine (List.nodup_append.1 (List.nodup_append.1 hnodup).1).2.2 _ h _ ?_ rfl
      exact FileTree.mem_order_of_below hdepth .refl hx
    rw [← hall, children, List.filter_map]
    rfl
  rw [deleteEntries_filter, hnames]
  have hloop := deleteEntries_ends (s := { s with calls := s.calls + 1 }) hrun hdepth
    (fun _ h => h) hfollow (List.nodup_append.1 hnodup).1 hstays hfs
  rcases hloop.andThen [(q, c)] with ⟨s₁, hr, hfs₁, hnext⟩ | ⟨ret, s₁, hret, hr, hends⟩
  · rw [hr]
    refine hnext _ (removeIf_ends hfs₁ (j := d) ?_ hc ?_ ?_)
    · rw [hfs₁]
      exact hentry
    · rw [hfs₁, isDir_without, hdir]
    · rw [hfs₁, children_without]
      refine List.filter_eq_nil_iff.2 fun x hx => ?_
      have hmem := FileTree.mem_order_of_below (p := p) hdepth .refl hx
      rw [decide_eq_true_eq]
      exact fun h => h (List.mem_append_right _ hmem)
  · rw [hr] at hends ⊢
    dsimp only
    rw [if_neg hret]
    exact hends

/-- **`delete_non_empty_dir` with enough levels.** -/
theorem deleteNonEmptyDir_deletes {n m : ℕ} (hm : n ≤ m) :
    Deletes t e n (e.deleteNonEmptyDir m) := by
  induction n generalizing m with
  | zero =>
    intro d _ _ _ _ _ hdepth
    have := t.depth_le d
    omega
  | succ n ih =>
    obtain ⟨m, rfl⟩ : ∃ k, m = k + 1 := ⟨m - 1, by omega⟩
    exact deleteDir_deletes (ih (Nat.le_of_succ_le_succ hm))

/-- **`remove_tree` with enough levels.** -/
theorem removeTree_deletes {n m : ℕ} (hm : n ≤ m) : Deletes t e n (e.removeTree m) := by
  induction n generalizing m with
  | zero =>
    intro d _ _ _ _ _ hdepth
    have := t.depth_le d
    omega
  | succ n ih =>
    obtain ⟨m, rfl⟩ : ∃ k, m = k + 1 := ⟨m - 1, by omega⟩
    intro d q p c removed s hdepth hdir hc hentry hnodup hstays hfs
    have hhere : e.follow s.fs p = some d := by
      rw [hfs]
      exact Start.follow_mono (without_le_without _ fun _ h => List.mem_append_left _ h)
        (Start.follow_of_entryOf hentry (by rw [linkOf_without, linkOf_eq_none_of_isDir hdir]))
    rw [removeTree]
    rcases stat_cases hhere with ⟨hdeny, hstat⟩ | hstat
    · rw [hstat]
      exact .refused hfs hdeny
    · rw [hstat]
      dsimp only
      rw [hfs, isDir_without, if_pos hdir]
      exact deleteDir_deletes (ih (Nat.le_of_succ_le_succ hm)) d q p c removed _ hdepth hdir hc
        hentry hnodup hstays rfl

end Env

/-! ### Deleting a plain tree -/

theorem Plain.nodup {p c : Bytes} {q d : ℕ} (h : Plain t e.toStart p q c d) :
    (([] : List (ℕ × Bytes)) ++
      ((order t.fs (t.height + 1) d p).map Prod.fst ++ [(q, c)])).Nodup := by
  refine List.nodup_append.2 ⟨List.nodup_nil, List.nodup_append.2
    ⟨t.order_nodup _ _ _, by simp, ?_⟩, by simp⟩
  rintro r hr _ hr' rfl
  -- the entry of the directory is found without the entries of its tree
  obtain ⟨-, -, -, hstep⟩ := Start.entryOf_eq_some.1 h.1.2.2
  rw [step_without, if_pos (by rwa [← List.mem_singleton.1 hr'])] at hstep
  cases hstep

theorem Ends.contained {p c : Bytes} {q d : ℕ} (h : Plain t e.toStart p q c d)
    {r : Option (ℤ × Sys κ)}
    (hends : Ends t e [] ((order t.fs (t.height + 1) d p).map Prod.fst ++ [(q, c)]) r) :
    Contained t e p q c d r := by
  obtain ⟨ret, s, now, hr, hsub, hfs, hall, hret⟩ := hends
  refine ⟨ret, s, hr, ⟨now, hfs, fun x hx => ?_⟩, fun hdeny => ?_⟩
  · refine (List.mem_append.1 (hsub x hx)).imp (fun hx => ?_) List.mem_singleton.1
    obtain ⟨y, hy, rfl⟩ := List.mem_map.1 hx
    exact below_of_mem_dirs (mem_dirs_of_order hy)
  have hnow := hall (hret hdeny)
  refine ⟨hret hdeny, ?_, fun d' hd' => ?_⟩
  · cases hentry : e.entryOf s.fs p with
    | none => rfl
    | some x =>
      obtain ⟨q', c', d'⟩ := x
      have hbefore := Start.entryOf_mono (without_le t.fs ([] ++ now)) (hfs ▸ hentry)
      rw [Start.entryOf_mono (without_le _ _) h.1.2.2] at hbefore
      cases Option.some.inj hbefore
      obtain ⟨-, -, -, hstep⟩ := Start.entryOf_eq_some.1 hentry
      rw [hfs, step_without, if_pos (by simp [hnow])] at hstep
      cases hstep
  · rw [hfs, children_without]
    refine List.filter_eq_nil_iff.2 fun x hx => ?_
    have hmem := FileTree.mem_order_of_below (p := p) (n := t.height + 1) (by omega) hd' hx
    rw [decide_eq_true_eq, hnow]
    exact fun h => h (List.mem_append_right _ (List.mem_append_left _ hmem))

/-- **`DelDir` and `remove_tree` stay inside a plain tree**, with as many levels as the file system
is deep. -/
theorem contained_of_plain {p c : Bytes} {q d : ℕ} (h : Plain t e.toStart p q c d) {n : ℕ}
    (hn : t.height < n) :
    Contained t e p q c d (e.delDir n p ⟨t.fs, 0⟩) ∧
      Contained t e p q c d (e.removeTree n p ⟨t.fs, 0⟩) := by
  obtain ⟨⟨hdir, hc, hentry⟩, hstays⟩ := id h
  have hempty : t.fs.without [] = t.fs := without_nil t.fs
  have hfollow : e.follow t.fs p = some d := Start.follow_mono (without_le _ _)
    (Start.follow_of_entryOf hentry (by rw [linkOf_without, linkOf_eq_none_of_isDir hdir]))
  have hrun : ∀ run : Bytes → Sys κ → Option (ℤ × Sys κ), Deletes t e (t.height + 1) run →
      ∀ s : Sys κ, s.fs = t.fs → Contained t e p q c d (run p s) := fun run hdel s hs =>
    Ends.contained h (hdel d q p c [] s (by omega) hdir hc hentry h.nodup hstays
      (by rw [hempty, hs]))
  refine ⟨?_, hrun _ (Env.removeTree_deletes hn) _ rfl⟩
  rw [Env.delDir]
  rcases Env.stat_cases (s := ⟨t.fs, 0⟩) hfollow with ⟨hdeny, hstat⟩ | hstat
  · rw [hstat]
    exact Ends.contained h (.refused hempty.symm hdeny)
  · rw [hstat]
    dsimp only
    rw [if_pos hdir]
    exact hrun _ (Env.deleteNonEmptyDir_deletes hn) _ rfl

/-! ### Two file systems -/

section Sample

/-- The inodes of a table, with the depth and the place of the directories. -/
abbrev Rows := List (Inode Bytes Unit × ℕ × ℕ × Bytes)

def Rows.fs (rows : Rows) : Vfs Bytes Unit := fun i => rows[i]?.map Prod.fst

def Rows.depth (rows : Rows) (i : ℕ) : ℕ := (rows[i]?.map fun r => r.2.1).getD 0

def Rows.place (rows : Rows) (i : ℕ) : ℕ × Bytes := (rows[i]?.map fun r => r.2.2).getD (0, [])

/-- The directories of a table form a tree. -/
def Rows.Ok (rows : Rows) (height : ℕ) : Prop :=
  (∀ r ∈ rows, r.2.1 ≤ height) ∧ ∀ d < rows.length,
    (∀ x ∈ children rows.fs d, rows.fs.isDir x.2 = true →
      rows.place x.2 = (d, x.1) ∧ rows.depth x.2 = rows.depth d + 1) ∧
    ((rows.fs.entries d).map Prod.fst).Nodup ∧
    ∀ x ∈ rows.fs.entries d, x.1 ≠ [] ∧ slash ∉ x.1

instance decidableRowsOk (rows : Rows) (height : ℕ) : Decidable (rows.Ok height) :=
  inferInstanceAs (Decidable (_ ∧ ∀ d < rows.length, _ ∧ _ ∧ _))

theorem Rows.entries_eq_nil {rows : Rows} {d : ℕ} (h : ¬d < rows.length) :
    rows.fs.entries d = [] := by
  have hd : rows.fs d = none := by simp [Rows.fs, List.getElem?_eq_none (Nat.le_of_not_lt h)]
  simp [entries, hd]

/-- The file system of a table. -/
def Rows.tree (rows : Rows) (height : ℕ) (h : rows.Ok height) : FileTree Unit where
  fs := rows.fs
  height := height
  depth := rows.depth
  place := rows.place
  depth_le d := by
    unfold Rows.depth
    cases hd : rows[d]? with
    | none => exact Nat.zero_le _
    | some r => exact h.1 r (List.mem_of_getElem? hd)
  child d := by
    by_cases hd : d < rows.length
    · exact (h.2 d hd).1
    · simp [children, Rows.entries_eq_nil hd]
  nodup d := by
    by_cases hd : d < rows.length
    · exact (h.2 d hd).2.1
    · simp [Rows.entries_eq_nil hd]
  name d := by
    by_cases hd : d < rows.length
    · exact (h.2 d hd).2.2
    · simp [Rows.entries_eq_nil hd]

/-- Nothing is refused. -/
def allowed : Env := ⟨⟨0, 40⟩, fun _ => false⟩

/-- `/d` with a file, a directory with a file, and a link to the file `/t`. -/
def sampleTree : FileTree Unit :=
  Rows.tree [(.dir [(ascii "d", 1), (ascii "t", 2)], 0, 0, []),
    (.dir [(ascii ".", 1), (ascii "..", 0), (ascii "a", 3), (ascii "l", 4), (ascii "f", 5)],
      1, 0, ascii "d"),
    (.file (), 0, 0, []), (.dir [(ascii "g", 6)], 2, 1, ascii "a"),
    (.link true [ascii "t"], 0, 0, []), (.file (), 0, 0, []), (.file (), 0, 0, [])] 2
    (by decide +kernel)

theorem contained_sample :
    Contained sampleTree allowed (ascii "/d") 0 (ascii "d") 1
        (allowed.delDir 3 (ascii "/d") ⟨sampleTree.fs, 0⟩) ∧
      Contained sampleTree allowed (ascii "/d") 0 (ascii "d") 1
        (allowed.removeTree 3 (ascii "/d") ⟨sampleTree.fs, 0⟩) :=
  contained_of_plain (t := sampleTree) (e := allowed) (n := 3)
    ⟨⟨by decide +kernel, by decide +kernel, by decide +kernel⟩, by decide +kernel⟩ (by decide)

/-- `/d` with a link to the directory `/o`, in which there is a file. -/
def linkedTree : FileTree Unit :=
  Rows.tree [(.dir [(ascii "d", 1), (ascii "o", 2)], 0, 0, []),
    (.dir [(ascii "l", 3)], 1, 0, ascii "d"), (.dir [(ascii "f", 4)], 1, 0, ascii "o"),
    (.link true [ascii "o"], 0, 0, []), (.file (), 0, 0, [])] 1 (by decide +kernel)

theorem not_below_link : ¬ Below linkedTree.fs 1 2 := by
  have h : ∀ i, Below linkedTree.fs 1 i → i = 1 := by
    intro i hi
    induction hi with
    | refl => rfl
    | child _ hx hdir ih =>
      subst ih
      have hnone : ∀ x ∈ children linkedTree.fs 1, linkedTree.fs.isDir x.2 = false := by
        decide +kernel
      rw [hnone _ hx] at hdir
      cases hdir
  exact fun hb => absurd (h 2 hb) (by decide)

/-- **A file outside the directory is lost**: the walk goes over the link into `/o`, deletes the
file, and then fails to remove the link as a directory. -/
theorem file_lost_outside :
    ∃ s, allowed.delDir 4 (ascii "/d") ⟨linkedTree.fs, 0⟩ = some (-1, s) ∧
      linkedTree.fs.step 2 (ascii "f") = some 4 ∧ s.fs.step 2 (ascii "f") = none ∧
      ¬ Below linkedTree.fs 1 2 ∧ ¬ Contained linkedTree allowed (ascii "/d") 0 (ascii "d") 1
        (allowed.delDir 4 (ascii "/d") ⟨linkedTree.fs, 0⟩) := by
  obtain ⟨⟨ret, s⟩, hrun, hs⟩ := Option.map_eq_some_iff.1
    (show (allowed.delDir 4 (ascii "/d") ⟨linkedTree.fs, 0⟩).map
      (fun r => (r.1, r.2.fs.step 2 (ascii "f"))) = some (-1, none) by decide +kernel)
  obtain ⟨rfl, hlost⟩ := Prod.mk.inj hs
  refine ⟨s, hrun, by decide +kernel, hlost, not_below_link, ?_⟩
  rintro ⟨ret, s', hrun', -, hall⟩
  rw [hrun] at hrun'
  cases hrun'
  exact absurd (hall fun _ => rfl).1 (by decide)

end Sample

end DelDir

end Swinx
