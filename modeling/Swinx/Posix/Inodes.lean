import Mathlib.Data.List.Basic
import Mathlib.Tactic.SplitIfs

/-!
# File systems with symbolic links

A file system maps inodes to files, directories and symbolic links.  A directory is a list of
entries, among which its own `.` and `..` may be; the root is inode 0.  A name is resolved component
by component, and the number of links that are followed is bounded.

* `Vfs.resolve_mono` — what can be resolved stays so in a larger file system.
* `Vfs.resolve_concat` — one more component.
* `Vfs.without_le_without` — entries that are gone.
-/

namespace Swinx

/-- What an inode stands for. -/
inductive Inode (ν κ : Type*)
  | file (content : κ)
  | dir (entries : List (ν × ℕ))
  /-- The target begins at the root, or at the directory of the link. -/
  | link (absolute : Bool) (target : List ν)
  deriving DecidableEq, Repr

/-- The inodes. -/
abbrev Vfs (ν κ : Type*) := ℕ → Option (Inode ν κ)

namespace Vfs

variable {ν κ : Type*} [DecidableEq ν]

/-- The entries of a directory. -/
def entries (fs : Vfs ν κ) (d : ℕ) : List (ν × ℕ) :=
  match fs d with
  | some (.dir entries) => entries
  | _ => []

def isDir (fs : Vfs ν κ) (i : ℕ) : Bool :=
  match fs i with
  | some (.dir _) => true
  | _ => false

/-- The target of a symbolic link. -/
def linkOf (fs : Vfs ν κ) (i : ℕ) : Option (Bool × List ν) :=
  match fs i with
  | some (.link absolute target) => some (absolute, target)
  | _ => none

/-- The entry of a directory. -/
def step (fs : Vfs ν κ) (d : ℕ) (c : ν) : Option ℕ := (fs.entries d).lookup c

omit [DecidableEq ν] in
theorem linkOf_eq_none_of_isDir {fs : Vfs ν κ} {i : ℕ} (h : fs.isDir i = true) :
    fs.linkOf i = none := by
  unfold isDir at h
  unfold linkOf
  cases hi : fs i with
  | none => rfl
  | some node => cases node <;> simp_all

theorem step_of_mem {fs : Vfs ν κ} {d : ℕ} (hnodup : ((fs.entries d).map Prod.fst).Nodup)
    {x : ν × ℕ} (hx : x ∈ fs.entries d) : fs.step d x.1 = some x.2 := by
  unfold step
  revert hnodup hx
  induction fs.entries d with
  | nil => simp
  | cons y l ih =>
    intro hnodup hx
    obtain ⟨hy, hl⟩ := List.nodup_cons.1 hnodup
    rw [List.lookup_cons]
    rcases List.mem_cons.1 hx with rfl | hx
    · simp
    · have hne : (x.1 == y.1) = false :=
        beq_false_of_ne fun h => hy (List.mem_map.2 ⟨x, hx, h⟩)
      rw [hne]
      exact ih hl hx

/-- The components one by one; `jump` goes on after a link. -/
def descend (fs : Vfs ν κ) (jump : ℕ → List ν → Option ℕ) (follow : Bool) :
    ℕ → List ν → Option ℕ
  | i, [] => some i
  | i, c :: cs =>
    match fs.step i c with
    | none => none
    | some j =>
      match fs.linkOf j with
      | none => descend fs jump follow j cs
      | some (absolute, target) =>
        if follow = false ∧ cs = [] then some j
        else jump (if absolute then 0 else i) (target ++ cs)

/-- What the components lead to from a directory, over at most so many links; a link at the end is
followed or not. -/
def resolve (fs : Vfs ν κ) : ℕ → Bool → ℕ → List ν → Option ℕ
  | 0, follow => descend fs (fun _ _ => none) follow
  | n + 1, follow => descend fs (resolve fs n follow) follow

/-! ### Larger file systems -/

/-- The same links, and at least as many entries. -/
structure Le (fs fs' : Vfs ν κ) : Prop where
  linkOf : ∀ i, fs'.linkOf i = fs.linkOf i
  step : ∀ d c j, fs.step d c = some j → fs'.step d c = some j

theorem descend_mono {fs fs' : Vfs ν κ} (h : Le fs fs') {jump jump' : ℕ → List ν → Option ℕ}
    (hjump : ∀ i cs j, jump i cs = some j → jump' i cs = some j) {follow : Bool} {i j : ℕ}
    {cs : List ν} (hj : fs.descend jump follow i cs = some j) :
    fs'.descend jump' follow i cs = some j := by
  induction cs generalizing i with
  | nil => exact hj
  | cons c cs ih =>
    unfold descend at hj ⊢
    cases hstep : fs.step i c with
    | none => simp [hstep] at hj
    | some k =>
      rw [hstep] at hj
      rw [h.step i c k hstep]
      dsimp only at hj ⊢
      rw [h.linkOf]
      cases hlink : fs.linkOf k with
      | none =>
        rw [hlink] at hj
        exact ih hj
      | some link =>
        rw [hlink] at hj
        dsimp only at hj ⊢
        by_cases hlast : follow = false ∧ cs = []
        · rw [if_pos hlast] at hj ⊢
          exact hj
        · rw [if_neg hlast] at hj ⊢
          exact hjump _ _ _ hj

/-- **What can be resolved stays so in a larger file system.** -/
theorem resolve_mono {fs fs' : Vfs ν κ} (h : Le fs fs') {n : ℕ} {follow : Bool} {i j : ℕ}
    {cs : List ν} (hj : fs.resolve n follow i cs = some j) :
    fs'.resolve n follow i cs = some j := by
  induction n generalizing i j cs with
  | zero => exact descend_mono h (fun _ _ _ h => by simp at h) hj
  | succ n ih => exact descend_mono h (fun _ _ _ h => ih h) hj

/-! ### One more component -/

theorem descend_concat {fs : Vfs ν κ} {jump jump' : ℕ → List ν → Option ℕ} {follow : Bool}
    {d j : ℕ} {c : ν} (hstep : fs.step d c = some j)
    (hend : fs.linkOf j = none ∨ follow = false)
    (hjump : ∀ i cs, jump i cs = some d → jump' i (cs ++ [c]) = some j) {i : ℕ} {cs : List ν}
    (hd : fs.descend jump true i cs = some d) :
    fs.descend jump' follow i (cs ++ [c]) = some j := by
  induction cs generalizing i with
  | nil =>
    cases hd
    rw [List.nil_append]
    unfold descend
    rw [hstep]
    dsimp only
    cases hlink : fs.linkOf j with
    | none => rfl
    | some link => exact if_pos ⟨hend.resolve_left (by simp [hlink]), rfl⟩
  | cons c' cs ih =>
    rw [List.cons_append]
    unfold descend at hd ⊢
    cases hstep' : fs.step i c' with
    | none => simp [hstep'] at hd
    | some k =>
      rw [hstep'] at hd
      dsimp only at hd ⊢
      cases hlink : fs.linkOf k with
      | none =>
        rw [hlink] at hd
        exact ih hd
      | some link =>
        rw [hlink] at hd
        dsimp only at hd ⊢
        rw [if_neg (by simp)] at hd ⊢
        rw [← List.append_assoc]
        exact hjump _ _ hd

/-- **One more component**, which is not a link, or a link that is not followed. -/
theorem resolve_concat {fs : Vfs ν κ} {n : ℕ} {follow : Bool} {i d j : ℕ} {cs : List ν} {c : ν}
    (hd : fs.resolve n true i cs = some d) (hstep : fs.step d c = some j)
    (hend : fs.linkOf j = none ∨ follow = false) :
    fs.resolve n follow i (cs ++ [c]) = some j := by
  induction n generalizing i cs with
  | zero =>
    refine descend_concat hstep hend (fun _ _ h => ?_) hd
    simp at h
  | succ n ih => exact descend_concat hstep hend (fun _ _ h => ih h) hd

/-! ### Without some entries -/

/-- The file system without some entries. -/
def without (fs : Vfs ν κ) (removed : List (ℕ × ν)) : Vfs ν κ := fun d =>
  match fs d with
  | some (.dir entries) => some (.dir (entries.filter fun e => (d, e.1) ∉ removed))
  | node => node

theorem entries_without (fs : Vfs ν κ) (removed : List (ℕ × ν)) (d : ℕ) :
    (fs.without removed).entries d = (fs.entries d).filter fun e => (d, e.1) ∉ removed := by
  unfold entries without
  cases fs d with
  | none => rfl
  | some node => cases node <;> rfl

theorem isDir_without (fs : Vfs ν κ) (removed : List (ℕ × ν)) (i : ℕ) :
    (fs.without removed).isDir i = fs.isDir i := by
  unfold isDir without
  cases fs i with
  | none => rfl
  | some node => cases node <;> rfl

theorem linkOf_without (fs : Vfs ν κ) (removed : List (ℕ × ν)) (i : ℕ) :
    (fs.without removed).linkOf i = fs.linkOf i := by
  unfold linkOf without
  cases fs i with
  | none => rfl
  | some node => cases node <;> rfl

theorem lookup_filter (p : ν → Bool) (l : List (ν × ℕ)) (c : ν) :
    (l.filter fun e => p e.1).lookup c = if p c then l.lookup c else none := by
  induction l with
  | nil => simp
  | cons e l ih =>
    rw [List.filter_cons]
    by_cases hc : c = e.1
    · subst hc
      by_cases hp : p e.1 = true
      · rw [if_pos hp, if_pos hp]
        rw [List.lookup_cons, List.lookup_cons, beq_self_eq_true]
      · rw [if_neg hp, ih, if_neg hp, if_neg hp]
    · have hskip : ∀ l' : List (ν × ℕ), (e :: l').lookup c = l'.lookup c := fun l' => by
        rw [List.lookup_cons, beq_false_of_ne hc]
      rw [hskip]
      split_ifs with hp hpc hpc
      · rw [hskip, ih, if_pos hpc]
      · rw [hskip, ih, if_neg hpc]
      · rw [ih, if_pos hpc]
      · rw [ih, if_neg hpc]

theorem step_without (fs : Vfs ν κ) (removed : List (ℕ × ν)) (d : ℕ) (c : ν) :
    (fs.without removed).step d c = if (d, c) ∈ removed then none else fs.step d c := by
  unfold step
  rw [entries_without, lookup_filter (fun c => decide ((d, c) ∉ removed))]
  by_cases h : (d, c) ∈ removed <;> simp [h]

theorem without_without (fs : Vfs ν κ) (removed removed' : List (ℕ × ν)) :
    (fs.without removed).without removed' = fs.without (removed ++ removed') := by
  funext d
  unfold without
  cases fs d with
  | none => rfl
  | some node =>
    cases node with
    | dir entries =>
      dsimp only
      rw [List.filter_filter]
      congr 2
      refine List.filter_congr fun e _ => ?_
      simp [List.mem_append, Bool.and_comm]
    | file => rfl
    | link => rfl

theorem without_nil (fs : Vfs ν κ) : fs.without [] = fs := by
  funext d
  unfold without
  cases hd : fs d with
  | none => rfl
  | some node => cases node <;> simp

/-- **Fewer entries without more of them.** -/
theorem without_le_without (fs : Vfs ν κ) {removed removed' : List (ℕ × ν)}
    (h : ∀ e ∈ removed', e ∈ removed) : Le (fs.without removed) (fs.without removed') where
  linkOf i := by rw [linkOf_without, linkOf_without]
  step d c j hj := by
    rw [step_without] at hj ⊢
    split_ifs at hj with hr
    rw [if_neg fun h' => hr (h _ h')]
    exact hj

theorem without_le (fs : Vfs ν κ) (removed : List (ℕ × ν)) : Le (fs.without removed) fs := by
  have h : Le (fs.without removed) (fs.without []) := without_le_without fs (by simp)
  rwa [without_nil] at h

end Vfs

end Swinx
