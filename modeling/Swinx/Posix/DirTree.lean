import Mathlib.Logic.Function.Basic
import Mathlib.Data.List.Basic

/-!
# Trees of directories

The directories of a file system by their paths, from the root of the file system, with the inodes
that keep their identity when a directory is renamed.

* `moved_append`, `moved_of_elsewhere` — what the paths stand for after a rename.
-/

namespace Swinx

open Function (update update_of_ne update_self)

variable {ν : Type*}

theorem snoc_inj {p q : List ν} {n m : ν} : p ++ [n] = q ++ [m] ↔ p = q ∧ n = m := by
  constructor
  · intro h
    obtain ⟨hp, hn⟩ := List.append_inj' h rfl
    exact ⟨hp, List.singleton_inj.1 hn⟩
  · rintro ⟨rfl, rfl⟩
    rfl

theorem not_snoc_prefix (p : List ν) (n : ν) : ¬ p ++ [n] <+: p := fun h => by
  have := h.length_le
  rw [List.length_append, List.length_singleton] at this
  omega

theorem prefix_append_cases {a p q : List ν} (h : a <+: p ++ q) :
    a <+: p ∨ ∃ r, a = p ++ r ∧ r <+: q := by
  rcases List.prefix_or_prefix_of_prefix h (List.prefix_append p q) with h' | ⟨r, rfl⟩
  · exact Or.inl h'
  · exact Or.inr ⟨r, rfl, (List.prefix_append_right_inj p).1 h⟩

/-- The directories of a file system. -/
structure DirTree (ν : Type*) where
  /-- The directory of a path. -/
  inode : List ν → Option ℕ
  /-- The paths in some order. -/
  paths : List (List ν)
  /-- An inode that was never used. -/
  fresh : ℕ
  mem_paths : ∀ p, p ∈ paths ↔ inode p ≠ none
  closed : ∀ p q, p <+: q → inode q ≠ none → inode p ≠ none
  inj : ∀ p q i, inode p = some i → inode q = some i → p = q
  lt_fresh : ∀ p i, inode p = some i → i < fresh

namespace DirTree

variable [DecidableEq ν]

/-- A file system whose root has no directories in it. -/
def root : DirTree ν where
  inode p := if p = [] then some 0 else none
  paths := [[]]
  fresh := 1
  mem_paths p := by simp
  closed p q h hq := by
    have hnil : q = [] := by simpa using hq
    simpa [hnil] using h
  inj p q i hp hq := by simp_all
  lt_fresh p i hp := by simp_all

/-- `mkdir` -/
def mkdir (t : DirTree ν) (p : List ν) (n : ν) (hp : t.inode p ≠ none) : DirTree ν where
  inode := update t.inode (p ++ [n]) (some t.fresh)
  paths := t.paths ++ [p ++ [n]]
  fresh := t.fresh + 1
  mem_paths q := by
    by_cases h : q = p ++ [n]
    · simp [h]
    · simp [h, t.mem_paths]
  closed a q h hq := by
    by_cases hqn : q = p ++ [n]
    · subst hqn
      rcases List.prefix_concat_iff.1 h with rfl | ha
      · simp
      · by_cases han : a = p ++ [n]
        · simp [han]
        · simpa [han] using t.closed a p ha hp
    · have hq' : t.inode q ≠ none := by simpa [hqn] using hq
      by_cases han : a = p ++ [n]
      · simp [han]
      · simpa [han] using t.closed a q h hq'
  inj a q i ha hq := by
    by_cases han : a = p ++ [n] <;> by_cases hqn : q = p ++ [n]
    · rw [han, hqn]
    · simp only [han, update_self, Option.some.injEq, update_of_ne hqn] at ha hq
      exact absurd (t.lt_fresh q i hq) (by omega)
    · simp only [hqn, update_self, Option.some.injEq, update_of_ne han] at ha hq
      exact absurd (t.lt_fresh a i ha) (by omega)
    · simp only [update_of_ne han, update_of_ne hqn] at ha hq
      exact t.inj a q i ha hq
  lt_fresh a i ha := by
    by_cases han : a = p ++ [n]
    · simp only [han, update_self, Option.some.injEq] at ha
      omega
    · simp only [update_of_ne han] at ha
      exact Nat.lt_succ_of_lt (t.lt_fresh a i ha)

/-- No directory is in the directory of the path. -/
def Empty (t : DirTree ν) (p : List ν) : Prop := ∀ q ∈ t.paths, p <+: q → q = p

instance decidableEmpty (t : DirTree ν) (p : List ν) : Decidable (t.Empty p) :=
  inferInstanceAs (Decidable (∀ q ∈ t.paths, _ → _))

/-- `rmdir` -/
def rmdir (t : DirTree ν) (p : List ν) (hp : t.Empty p) : DirTree ν where
  inode := update t.inode p none
  paths := t.paths.filter (· ≠ p)
  fresh := t.fresh
  mem_paths q := by
    by_cases h : q = p
    · simp [h]
    · simp [h, t.mem_paths]
  closed a q h hq := by
    by_cases hqp : q = p
    · simp [hqp] at hq
    · have hq' : t.inode q ≠ none := by simpa [hqp] using hq
      have hap : a ≠ p := by
        rintro rfl
        exact hqp (hp q ((t.mem_paths q).2 hq') h)
      simpa [hap] using t.closed a q h hq'
  inj a q i ha hq := by
    have hap : a ≠ p := by rintro rfl; simp at ha
    have hqp : q ≠ p := by rintro rfl; simp at hq
    exact t.inj a q i (by simpa [hap] using ha) (by simpa [hqp] using hq)
  lt_fresh a i ha := by
    have hap : a ≠ p := by rintro rfl; simp at ha
    exact t.lt_fresh a i (by simpa [hap] using ha)

/-- The directory that is at `q` after the rename of `src` to `dst`. -/
def moved (t : DirTree ν) (src dst q : List ν) : Option ℕ :=
  if dst <+: q then t.inode (src ++ q.drop dst.length)
  else if src <+: q then none
  else t.inode q

@[simp] theorem moved_append (t : DirTree ν) (src dst r : List ν) :
    t.moved src dst (dst ++ r) = t.inode (src ++ r) := by
  rw [moved, if_pos (List.prefix_append dst r), List.drop_left]

theorem moved_of_elsewhere (t : DirTree ν) {src dst q : List ν} (hd : ¬ dst <+: q)
    (hs : ¬ src <+: q) : t.moved src dst q = t.inode q := by
  rw [moved, if_neg hd, if_neg hs]

/-- Either the path is new, or it stands for what it stood for. -/
theorem moved_ne_none {t : DirTree ν} {src dst q : List ν} (h : t.moved src dst q ≠ none) :
    (∃ r, q = dst ++ r ∧ t.inode (src ++ r) ≠ none) ∨
      ¬ dst <+: q ∧ ¬ src <+: q ∧ t.inode q ≠ none := by
  by_cases hd : dst <+: q
  · obtain ⟨r, rfl⟩ := hd
    exact Or.inl ⟨r, rfl, by rwa [moved_append] at h⟩
  · by_cases hs : src <+: q
    · rw [moved, if_neg hd, if_pos hs] at h
      exact absurd rfl h
    · rw [moved_of_elsewhere t hd hs] at h
      exact Or.inr ⟨hd, hs, h⟩

/-- `rename` to a path where nothing is. -/
def rename (t : DirTree ν) (src p : List ν) (n : ν) (hp : t.inode p ≠ none)
    (hn : t.inode (p ++ [n]) = none) (hno : ¬ src <+: p ++ [n]) : DirTree ν where
  inode := t.moved src (p ++ [n])
  paths := t.paths.map fun q => if src <+: q then (p ++ [n]) ++ q.drop src.length else q
  fresh := t.fresh
  mem_paths q := by
    have hfree : ∀ a, p ++ [n] <+: a → t.inode a = none := fun a ha => by
      by_contra h
      exact t.closed _ a ha h hn
    rw [List.mem_map]
    constructor
    · rintro ⟨a, ha, rfl⟩
      rw [t.mem_paths] at ha
      split_ifs with hs
      · obtain ⟨r, rfl⟩ := hs
        rwa [List.drop_left, moved_append]
      · rwa [moved_of_elsewhere t (fun h => ha (hfree a h)) hs]
    · intro h
      rcases moved_ne_none h with ⟨r, rfl, hr⟩ | ⟨-, hs, hq⟩
      · exact ⟨src ++ r, (t.mem_paths _).2 hr, by simp⟩
      · exact ⟨q, (t.mem_paths q).2 hq, if_neg hs⟩
  closed a q h hq := by
    rcases moved_ne_none hq with ⟨r, rfl, hr⟩ | ⟨hd, hs, hq'⟩
    · rcases prefix_append_cases h with ha | ⟨r', rfl, hr'⟩
      · rcases List.prefix_concat_iff.1 ha with rfl | ha
        · have : t.moved src (p ++ [n]) (p ++ [n]) = t.inode src := by
            simpa using moved_append t src (p ++ [n]) []
          rw [this]
          exact t.closed _ _ (List.prefix_append src r) hr
        · have hd : ¬ p ++ [n] <+: a := fun h => not_snoc_prefix p n (h.trans ha)
          have hs : ¬ src <+: a := fun h => hno (h.trans (ha.trans (List.prefix_append p [n])))
          rw [moved_of_elsewhere t hd hs]
          exact t.closed a p ha hp
      · rw [moved_append]
        exact t.closed _ _ ((List.prefix_append_right_inj src).2 hr') hr
    · rw [moved_of_elsewhere t (fun h' => hd (h'.trans h)) fun h' => hs (h'.trans h)]
      exact t.closed a q h hq'
  inj a q i ha hq := by
    rcases moved_ne_none (by rw [ha]; simp : t.moved src (p ++ [n]) a ≠ none) with
      ⟨r, rfl, -⟩ | ⟨hda, hsa, -⟩ <;>
    rcases moved_ne_none (by rw [hq]; simp : t.moved src (p ++ [n]) q ≠ none) with
      ⟨r', rfl, -⟩ | ⟨hdq, hsq, -⟩
    · rw [moved_append] at ha hq
      rw [List.append_cancel_left (t.inj _ _ i ha hq)]
    · rw [moved_append] at ha
      rw [moved_of_elsewhere t hdq hsq] at hq
      exact absurd (t.inj _ _ i ha hq ▸ List.prefix_append src r) hsq
    · rw [moved_append] at hq
      rw [moved_of_elsewhere t hda hsa] at ha
      exact absurd (t.inj _ _ i hq ha ▸ List.prefix_append src r') hsa
    · rw [moved_of_elsewhere t hda hsa] at ha
      rw [moved_of_elsewhere t hdq hsq] at hq
      exact t.inj a q i ha hq
  lt_fresh a i ha := by
    rcases moved_ne_none (by rw [ha]; simp : t.moved src (p ++ [n]) a ≠ none) with
      ⟨r, rfl, -⟩ | ⟨hda, hsa, -⟩
    · rw [moved_append] at ha
      exact t.lt_fresh _ i ha
    · rw [moved_of_elsewhere t hda hsa] at ha
      exact t.lt_fresh a i ha

end DirTree

end Swinx
