import Swinx.Data.CString
import Swinx.Posix.Inodes

/-!
# Pathnames

A pathname is a text whose components stand between slashes; it begins at the root or at the current
directory.

* `Vfs.Start.entryOf_joinPath` — the pathname of an entry of a directory.
-/

namespace Swinx

abbrev slash : UInt8 := 47

/-- The components of a pathname. -/
def components (p : Bytes) : List Bytes := (p.splitOnP (· == slash)).filter (· ≠ [])

/-- A name in a directory. -/
def joinPath (p c : Bytes) : Bytes := p ++ slash :: c

theorem components_joinPath {p c : Bytes} (hc : c ≠ []) (hs : slash ∉ c) :
    components (joinPath p c) = components p ++ [c] := by
  have hone : c.splitOnP (· == slash) = [c] :=
    List.splitOnP_eq_singleton fun x hx => beq_false_of_ne fun h => hs (h ▸ hx)
  rw [components, joinPath, List.splitOnP_append_cons p c (by simp), hone, List.filter_append]
  simp [components, hc]

namespace Vfs

variable {κ : Type*}

/-- Where pathnames begin, and how many links a pathname may go over. -/
structure Start where
  cwd : ℕ
  links : ℕ

namespace Start

def dirOf (e : Start) (p : Bytes) : ℕ := if p.head? = some slash then 0 else e.cwd

/-- The inode a pathname leads to. -/
def follow (e : Start) (fs : Vfs Bytes κ) (p : Bytes) : Option ℕ :=
  if p = [] then none else fs.resolve e.links true (e.dirOf p) (components p)

/-- The entry a pathname names: its directory, its name and its inode. -/
def entryOf (e : Start) (fs : Vfs Bytes κ) (p : Bytes) : Option (ℕ × Bytes × ℕ) :=
  (components p).getLast?.bind fun c =>
    (fs.resolve e.links true (e.dirOf p) (components p).dropLast).bind fun d =>
      (fs.step d c).map fun j => (d, c, j)

theorem entryOf_eq_some {e : Start} {fs : Vfs Bytes κ} {p c : Bytes} {d j : ℕ} :
    e.entryOf fs p = some (d, c, j) ↔ ∃ cs, components p = cs ++ [c] ∧
      fs.resolve e.links true (e.dirOf p) cs = some d ∧ fs.step d c = some j := by
  unfold entryOf
  constructor
  · intro h
    obtain ⟨c', hc, h⟩ := Option.bind_eq_some_iff.1 h
    obtain ⟨d', hd, h⟩ := Option.bind_eq_some_iff.1 h
    obtain ⟨j', hj, h⟩ := Option.map_eq_some_iff.1 h
    cases h
    exact ⟨_, (List.dropLast_append_getLast? c hc).symm, hd, hj⟩
  · rintro ⟨cs, hcs, hd, hj⟩
    simp [hcs, hd, hj]

theorem components_nil : components [] = [] := by decide

theorem ne_nil_of_entryOf {e : Start} {fs : Vfs Bytes κ} {p : Bytes} {x : ℕ × Bytes × ℕ}
    (h : e.entryOf fs p = some x) : p ≠ [] := by
  rintro rfl
  simp [entryOf, components_nil] at h

theorem follow_mono {e : Start} {fs fs' : Vfs Bytes κ} (h : Le fs fs') {p : Bytes} {j : ℕ}
    (hp : e.follow fs p = some j) : e.follow fs' p = some j := by
  unfold follow at hp ⊢
  split_ifs at hp ⊢ with hne
  exact resolve_mono h hp

theorem entryOf_mono {e : Start} {fs fs' : Vfs Bytes κ} (h : Le fs fs') {p c : Bytes} {d j : ℕ}
    (hp : e.entryOf fs p = some (d, c, j)) : e.entryOf fs' p = some (d, c, j) := by
  obtain ⟨cs, hcs, hd, hj⟩ := entryOf_eq_some.1 hp
  exact entryOf_eq_some.2 ⟨cs, hcs, resolve_mono h hd, h.step d c j hj⟩

theorem follow_of_entryOf {e : Start} {fs : Vfs Bytes κ} {p c : Bytes} {d j : ℕ}
    (h : e.entryOf fs p = some (d, c, j)) (hj : fs.linkOf j = none) :
    e.follow fs p = some j := by
  obtain ⟨cs, hcs, hd, hstep⟩ := entryOf_eq_some.1 h
  rw [follow, if_neg (ne_nil_of_entryOf h), hcs]
  exact resolve_concat hd hstep (.inl hj)

theorem dirOf_joinPath {e : Start} {p : Bytes} (hp : p ≠ []) (c : Bytes) :
    e.dirOf (joinPath p c) = e.dirOf p := by
  rw [dirOf, dirOf, joinPath, List.head?_append_of_ne_nil p hp]

/-- **The name of an entry of a directory.** -/
theorem entryOf_joinPath {e : Start} {fs : Vfs Bytes κ} {p c : Bytes} {d j : ℕ}
    (hp : e.follow fs p = some d) (hc : c ≠ []) (hs : slash ∉ c) (hj : fs.step d c = some j) :
    e.entryOf fs (joinPath p c) = some (d, c, j) := by
  unfold follow at hp
  split_ifs at hp with hne
  exact entryOf_eq_some.2
    ⟨components p, components_joinPath hc hs, by rw [dirOf_joinPath hne, hp], hj⟩

end Start

end Vfs

end Swinx
