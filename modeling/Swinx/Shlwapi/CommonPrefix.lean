import Mathlib.Order.Bounds.Basic
import Swinx.Data.UniconvCalls
import Swinx.Shlwapi.Unicode

/-!
# Common prefixes of paths

`PathCommonPrefix` compares two paths unit by unit, without regard to case and with both separators
the same, and goes back to the end of a component.  `PathIsPrefix` asks whether one path is all of a
common prefix.  The two forms are copies of each other.  Paths are not `NULL`.  Lengths are natural
numbers; in the `int`s of the code the calls give the same up to `INT_MAX` (`sameInInt`).

* `normLen_eq` — which trailing separators are left out.
* `isGreatest_iff` — when the greatest common prefix is found.
* `commonPrefix_iff` — both calls, in both forms.
-/

namespace Swinx

namespace Shlwapi

/-- An alphabet with letters. -/
structure Letters (α : Type) extends Alphabet α where
  lower : α → α
  isColon_of_lower : ∀ {u v}, lower u = lower v → isColon u = isColon v

namespace CommonPrefix

variable {α : Type} (A : Letters α)

/-- `path_norm_len` for the first `len` units -/
def normLen (s : List α) : ℕ → ℕ
  | 0 => 0
  | 1 => 1
  | len + 2 =>
    if s[len + 1]?.any A.isSep then
      if len = 1 ∧ s[1]?.any A.isColon then len + 2
      else if len = 0 then len + 2
      else normLen s (len + 1)
    else len + 2

/-- `path_last_boundary` -/
def lastBoundary (s : List α) (k : ℕ) : ℕ :=
  match scanBack A.toAlphabet s k with
  | none => 0
  | some i => if i = 2 ∧ s[1]?.any A.isColon then 3 else i

section Calls

variable [DecidableEq α]

/-- The units do not end the loop of `PathCommonPrefix`. -/
def same (u v : α) : Bool :=
  if A.isSep u ≠ A.isSep v then false
  else A.isSep u || decide (A.lower u = A.lower v)

/-- How far the loop of `PathCommonPrefix` comes. -/
def agree : List α → List α → ℕ
  | u :: s, v :: t => if same A u v then agree s t + 1 else 0
  | _, _ => 0

/-- `PathCommonPrefix` from the normalized lengths -/
def commonPrefix (file1 file2 : List α) (len1 len2 : ℕ) : ℕ :=
  let k := agree A (file1.take len1) (file2.take len2)
  if k = len1 ∧ k = len2 then k
  else if k = len1 ∨ k = len2 then
    let ls := if k = len1 then file2 else file1
    let ss := if k = len1 then file1 else file2
    if ls[k]?.any A.isSep ∨ 0 < k ∧ ss[k - 1]?.any A.isSep then k
    else lastBoundary A file1 k
  else lastBoundary A file1 k

/-- `PathCommonPrefix` -/
def pathCommonPrefix (file1 file2 : List α) : ℕ :=
  commonPrefix A file1 file2 (normLen A file1 file1.length) (normLen A file2 file2.length)

/-- What `PathCommonPrefix` leaves in `path`. -/
def copied (file1 file2 : List α) : List α :=
  let ret := pathCommonPrefix A file1 file2
  if ret ≠ 0 then file1.take ret else []

/-- `PathIsPrefix` -/
def pathIsPrefix (pre path : List α) : Bool :=
  if pre = [] ∨ pathCommonPrefix A path pre ≠ pre.length then false
  else path[pre.length]?.all A.isSep || pre[pre.length - 1]?.any A.isSep

/-- `PathCommonPrefix` with its `unsigned int` lengths and its `int` result -/
def intCommonPrefix (file1 file2 : List α) : ℤ :=
  Uniconv.toInt (commonPrefix A file1 file2 (normLen A file1 (file1.length % 2 ^ 32))
    (normLen A file2 (file2.length % 2 ^ 32)))

/-- `PathIsPrefix` with its comparison of `int`s -/
def intIsPrefix (pre path : List α) : Bool :=
  if pre = [] ∨ intCommonPrefix A path pre ≠ Uniconv.toInt pre.length then false
  else path[pre.length]?.all A.isSep || pre[pre.length - 1]?.any A.isSep

end Calls

/-! ### Components -/

/-- There is a separator at `i`. -/
def SepAt (s : List α) (i : ℕ) : Prop := s[i]?.any A.isSep = true

/-- There is a colon at `i`. -/
def ColonAt (s : List α) (i : ℕ) : Prop := s[i]?.any A.isColon = true

instance decidableSepAt (s : List α) (i : ℕ) : Decidable (SepAt A s i) :=
  inferInstanceAs (Decidable (_ = _))

instance decidableColonAt (s : List α) (i : ℕ) : Decidable (ColonAt A s i) :=
  inferInstanceAs (Decidable (_ = _))

/-- **The units of the root**: a drive with its separator, two separators or one. -/
def root (s : List α) : ℕ :=
  if ColonAt A s 1 ∧ SepAt A s 2 then 3
  else if SepAt A s 0 ∧ SepAt A s 1 then 2
  else if SepAt A s 0 then 1
  else 0

/-- The units without the trailing separators, but with the root. -/
def norm (s : List α) : ℕ := max (root A s) (s.rdropWhile A.isSep).length

/-- **The path may be cut at `k`**: the prefix is empty, or it has the root and ends with it, with
the path or in front of a separator. -/
def Complete (s : List α) (k : ℕ) : Prop :=
  k = 0 ∨ root A s ≤ k ∧ k ≤ norm A s ∧ (k = root A s ∨ k = norm A s ∨ SepAt A s k)

instance decidableComplete (s : List α) (k : ℕ) : Decidable (Complete A s k) :=
  inferInstanceAs (Decidable (_ ∨ _))

/-- One unit, and separators behind it. -/
def Lone (s : List α) : Prop := root A s = 0 ∧ norm A s = 1 ∧ 2 ≤ s.length

section Spec

variable [DecidableEq α]

/-- The paths have the same unit at `i`. -/
def SameAt (s t : List α) (i : ℕ) : Prop := ∃ u ∈ s[i]?, ∃ v ∈ t[i]?, same A u v = true

/-- **A common prefix** that ends on a complete component of both paths. -/
def Common (s t : List α) (k : ℕ) : Prop :=
  (∀ i < k, SameAt A s t i) ∧ Complete A s k ∧ Complete A t k

/-- The path without its trailing separators is a prefix of the other that ends on a complete
component of it. -/
def IsPrefix (p q : List α) : Prop := p ≠ [] ∧ Common A p q (norm A p)

/-- **The calls are right** for the two paths. -/
structure Right (s t : List α) : Prop where
  greatest : IsGreatest {k | Common A s t k} (pathCommonPrefix A s t)
  exchanged : pathCommonPrefix A t s = pathCommonPrefix A s t
  copied_eq : copied A s t = s.take (pathCommonPrefix A s t)
  isPrefix : pathIsPrefix A s t = true ↔ IsPrefix A s t

/-- `s` ends inside the root of `t`. -/
def InRoot (s t : List α) : Prop :=
  norm A s = 1 ∧ root A s = 1 ∧ 2 ≤ root A t ∧ SameAt A s t 0 ∨
    norm A s = 2 ∧ root A t = 3 ∧ SameAt A s t 0 ∧ SameAt A s t 1

/-- The paths go on behind a root of one or two separators, which is all they have in common. -/
def RootOnly (s t : List α) : Prop :=
  root A s = root A t ∧ 0 < root A s ∧ root A s ≤ 2 ∧ root A s < norm A s ∧ root A t < norm A t ∧
    ¬(SepAt A s (root A s) ∧ SepAt A t (root A s)) ∧ ∀ k, Common A s t k → k ≤ root A s

/-- **Paths whose greatest common prefix is found.** -/
structure Good (s t : List α) : Prop where
  lone : Lone A s ∨ Lone A t → ¬(SameAt A s t 0 ∧ SameAt A s t 1)
  inRoot : ¬InRoot A s t
  inRoot' : ¬InRoot A t s
  rootOnly : ¬RootOnly A s t

end Spec

/-! ### Units and roots -/

variable {A} {s t : List α} {i k : ℕ}

section Same

variable [DecidableEq α]

theorem same_comm (u v : α) : same A u v = same A v u := by
  unfold same
  simp only [ne_eq, eq_comm (a := A.isSep u), eq_comm (a := A.lower u)]
  by_cases h : A.isSep v = A.isSep u
  · rw [h]
  · simp [h]

theorem SameAt.symm (h : SameAt A s t i) : SameAt A t s i := by
  obtain ⟨u, hu, v, hv, h⟩ := h
  exact ⟨v, hv, u, hu, same_comm u v ▸ h⟩

theorem SameAt.sepAt_iff (h : SameAt A s t i) : SepAt A s i ↔ SepAt A t i := by
  obtain ⟨u, hu, v, hv, h⟩ := h
  unfold same at h
  unfold SepAt
  rw [Option.mem_def.1 hu, Option.mem_def.1 hv, Option.any_some, Option.any_some]
  split_ifs at h with hne
  rw [not_ne_iff.1 hne]

theorem SameAt.colonAt_iff (h : SameAt A s t i) : ColonAt A s i ↔ ColonAt A t i := by
  obtain ⟨u, hu, v, hv, h⟩ := h
  unfold same at h
  unfold ColonAt
  rw [Option.mem_def.1 hu, Option.mem_def.1 hv, Option.any_some, Option.any_some]
  split_ifs at h with hne
  rcases Bool.or_eq_true_iff.1 h with hsep | hlower
  · rw [A.isColon_of_isSep hsep, A.isColon_of_isSep (not_ne_iff.1 hne ▸ hsep)]
  · rw [A.isColon_of_lower (of_decide_eq_true hlower)]

theorem SameAt.lt (h : SameAt A s t i) : i < s.length ∧ i < t.length := by
  obtain ⟨u, hu, v, hv, -⟩ := h
  exact ⟨(List.getElem?_eq_some_iff.1 hu).1, (List.getElem?_eq_some_iff.1 hv).1⟩

end Same

theorem SepAt.lt (h : SepAt A s i) : i < s.length := by
  unfold SepAt at h
  by_contra hle
  rw [List.getElem?_eq_none (not_lt.1 hle)] at h
  cases h

theorem ColonAt.not_sepAt (h : ColonAt A s i) : ¬SepAt A s i := by
  unfold ColonAt at h
  unfold SepAt
  cases hu : s[i]? with
  | none =>
    rw [hu] at h
    cases h
  | some u =>
    rw [hu, Option.any_some] at h
    rw [Option.any_some]
    intro hsep
    rw [A.isColon_of_isSep hsep] at h
    cases h

/-- **The cases of a root.** -/
theorem root_cases (A : Letters α) (s : List α) :
    root A s = 3 ∧ ColonAt A s 1 ∧ SepAt A s 2 ∨
    root A s = 2 ∧ SepAt A s 0 ∧ SepAt A s 1 ∧ ¬ColonAt A s 1 ∨
    root A s = 1 ∧ SepAt A s 0 ∧ ¬SepAt A s 1 ∧ ¬(ColonAt A s 1 ∧ SepAt A s 2) ∨
    root A s = 0 ∧ ¬SepAt A s 0 ∧ ¬(ColonAt A s 1 ∧ SepAt A s 2) := by
  unfold root
  split_ifs with h3 h2 h1
  · exact .inl ⟨rfl, h3⟩
  · exact .inr (.inl ⟨rfl, h2.1, h2.2, fun h => h.not_sepAt h2.2⟩)
  · exact .inr (.inr (.inl ⟨rfl, h1, fun h => h2 ⟨h1, h⟩, h3⟩))
  · exact .inr (.inr (.inr ⟨rfl, h1, h3⟩))

theorem root_eq_two (h0 : SepAt A s 0) (h1 : SepAt A s 1) : root A s = 2 := by
  rcases root_cases A s with ⟨-, hc, -⟩ | ⟨hr, -⟩ | ⟨-, -, hs, -⟩ | ⟨-, hs, -⟩
  · exact absurd h1 hc.not_sepAt
  · exact hr
  · exact absurd h1 hs
  · exact absurd h0 hs

theorem sepAt_of_root (h : root A s = 2) : SepAt A s 0 ∧ SepAt A s 1 := by
  rcases root_cases A s with ⟨hr, -⟩ | ⟨-, h0, h1, -⟩ | ⟨hr, -⟩ | ⟨hr, -⟩
  · omega
  · exact ⟨h0, h1⟩
  · omega
  · omega

/-- A separator inside a root is the second of two, or the one of a drive. -/
theorem sepAt_in_root (h : SepAt A s i) (hpos : 0 < i) (hi : i < root A s) :
    root A s = 2 ∧ i = 1 ∨ root A s = 3 ∧ i = 2 ∧ ColonAt A s 1 := by
  rcases root_cases A s with ⟨hr, hc, -⟩ | ⟨hr, -⟩ | ⟨hr, -⟩ | ⟨hr, -⟩
  · rcases (show i = 1 ∨ i = 2 by omega) with rfl | rfl
    · exact absurd h hc.not_sepAt
    · exact .inr ⟨hr, rfl, hc⟩
  · exact .inl ⟨hr, by omega⟩
  · omega
  · omega

theorem root_le_length (A : Letters α) (s : List α) : root A s ≤ s.length := by
  rcases root_cases A s with ⟨hr, -, h⟩ | ⟨hr, -, h, -⟩ | ⟨hr, h, -⟩ | ⟨hr, -⟩
  · have := h.lt
    omega
  · have := h.lt
    omega
  · have := h.lt
    omega
  · omega

theorem sepAt_root (h : 0 < root A s) : SepAt A s (root A s - 1) := by
  rcases root_cases A s with ⟨hr, -, h2⟩ | ⟨hr, -, h1, -⟩ | ⟨hr, h0, -⟩ | ⟨hr, -⟩
  · rwa [hr]
  · rwa [hr]
  · rwa [hr]
  · omega

theorem root_le_norm (A : Letters α) (s : List α) : root A s ≤ norm A s := le_max_left _ _

theorem norm_le_length (A : Letters α) (s : List α) : norm A s ≤ s.length :=
  max_le (root_le_length A s) (List.rdropWhile_prefix A.isSep s).length_le

theorem not_sepAt_norm (h : root A s < norm A s) : ¬SepAt A s (norm A s - 1) := by
  have heq : norm A s = (s.rdropWhile A.isSep).length := by
    unfold norm at h ⊢
    omega
  have hne : s.rdropWhile A.isSep ≠ [] := by
    rw [← List.length_pos_iff]
    omega
  have hlast := List.rdropWhile_last_not A.isSep s hne
  have hlt : (s.rdropWhile A.isSep).length - 1 < (s.rdropWhile A.isSep).length := by omega
  rw [List.getLast_eq_getElem, (List.rdropWhile_prefix A.isSep s).getElem hlt] at hlast
  unfold SepAt
  rw [heq, List.getElem?_eq_getElem, Option.any_some]
  exact hlast

theorem root_eq_norm (h : SepAt A s (norm A s - 1)) : root A s = norm A s := by
  by_contra hne
  have := root_le_norm A s
  exact not_sepAt_norm (by omega) h

theorem sepAt_of_norm_le (h : norm A s ≤ i) (hi : i < s.length) : SepAt A s i := by
  have hdrop : (s.rdropWhile A.isSep).length ≤ i := (le_max_right _ _).trans h
  have happ := List.rdropWhile_append_rtakeWhile (p := A.isSep) (l := s)
  unfold SepAt
  rw [← happ, List.getElem?_append_right hdrop]
  have hlt : i - (s.rdropWhile A.isSep).length < (s.rtakeWhile A.isSep).length := by
    have := congrArg List.length happ
    rw [List.length_append] at this
    omega
  rw [List.getElem?_eq_getElem hlt, Option.any_some]
  exact List.mem_rtakeWhile_imp (List.getElem_mem _)

theorem norm_pos (h : s ≠ []) : 0 < norm A s := by
  by_contra hzero
  have hn : norm A s = 0 := by omega
  have hsep := sepAt_of_norm_le (A := A) (i := 0) (by omega) (List.length_pos_iff.2 h)
  have := root_le_norm A s
  rcases root_cases A s with ⟨hr, -⟩ | ⟨hr, -⟩ | ⟨hr, -⟩ | ⟨hr, h0, -⟩
  · omega
  · omega
  · omega
  · exact h0 hsep

theorem complete_root (s : List α) : Complete A s (root A s) :=
  .inr ⟨le_rfl, root_le_norm A s, .inl rfl⟩

/-- **What is left out**: all trailing separators, but one behind a lone unit stays. -/
theorem normLen_eq {n : ℕ} (h : norm A s ≤ n) (hn : n ≤ s.length) :
    normLen A s n = if root A s = 0 ∧ norm A s = 1 ∧ 2 ≤ n then 2 else norm A s := by
  have hroot := root_le_norm A s
  induction n with
  | zero =>
    rw [normLen, if_neg (by omega)]
    omega
  | succ n ih =>
    cases n with
    | zero =>
      have hne : s ≠ [] := List.length_pos_iff.1 (by omega)
      have := norm_pos (A := A) hne
      rw [normLen, if_neg (by omega)]
      omega
    | succ n =>
      have hsep : s[n + 1]?.any A.isSep = true ↔ SepAt A s (n + 1) := Iff.rfl
      have hcolon : s[1]?.any A.isColon = true ↔ ColonAt A s 1 := Iff.rfl
      simp only [normLen, hsep, hcolon]
      by_cases hlast : SepAt A s (n + 1)
      · rw [if_pos hlast]
        by_cases hdrive : n = 1 ∧ ColonAt A s 1
        · -- the separator of a drive
          obtain ⟨rfl, hc⟩ := hdrive
          have hr : root A s = 3 := if_pos ⟨hc, hlast⟩
          rw [if_pos ⟨rfl, hc⟩, if_neg (by omega)]
          omega
        · rw [if_neg hdrive]
          by_cases htwo : n = 0
          · -- two units, the second a separator: both are kept, whatever the first is
            subst htwo
            rw [if_pos rfl]
            have hcol : ¬ColonAt A s 1 := fun hc => hc.not_sepAt hlast
            rcases root_cases A s with ⟨-, hc, -⟩ | ⟨hr, -⟩ | ⟨-, -, hs, -⟩ | ⟨hr, -⟩
            · exact absurd hc hcol
            · rw [if_neg (by omega)]
              omega
            · exact absurd hlast hs
            · have hone : norm A s = 1 := by
                have hpos := norm_pos (A := A) (List.length_pos_iff.1 (by omega : 0 < s.length))
                by_contra hne
                have htwo : norm A s = 2 := by omega
                refine not_sepAt_norm (A := A) (s := s) (by omega) ?_
                rwa [htwo]
              rw [if_pos ⟨hr, hone, le_rfl⟩]
          · rw [if_neg htwo]
            have hle : norm A s ≤ n + 1 := by
              by_contra hgt
              have heq : norm A s = n + 2 := by omega
              rcases Nat.lt_or_ge (root A s) (norm A s) with hlt | hge
              · refine not_sepAt_norm hlt ?_
                rwa [heq]
              · rcases root_cases A s with ⟨hr, hc, -⟩ | ⟨hr, -⟩ | ⟨hr, -⟩ | ⟨hr, -⟩
                · exact hdrive ⟨by omega, hc⟩
                · omega
                · omega
                · omega
            rw [ih hle (by omega)]
            refine if_congr ?_ rfl rfl
            omega
      · rw [if_neg hlast]
        have heq : norm A s = n + 2 := by
          by_contra hne
          exact hlast (sepAt_of_norm_le (by omega) (by omega))
        rw [if_neg (by omega), heq]

section Agree

variable [DecidableEq α]

theorem sameAt_of_sepAt (hs : SepAt A s i) (ht : SepAt A t i) : SameAt A s t i := by
  obtain ⟨u, hu, hsep⟩ := Option.any_eq_true _ _ |>.1 hs
  obtain ⟨v, hv, hsep'⟩ := Option.any_eq_true _ _ |>.1 ht
  refine ⟨u, hu, v, hv, ?_⟩
  unfold same
  rw [if_neg (by rw [hsep, hsep']; exact fun h => h rfl), hsep]
  rfl

/-- **The loop comes to the first units that are not the same.** -/
theorem agree_spec (s t : List α) :
    agree A s t ≤ s.length ∧ agree A s t ≤ t.length ∧ (∀ i < agree A s t, SameAt A s t i) ∧
      ¬SameAt A s t (agree A s t) := by
  induction s generalizing t with
  | nil =>
    refine ⟨le_rfl, Nat.zero_le _, fun i hi => absurd hi (Nat.not_lt_zero i), ?_⟩
    rintro ⟨u, hu, -⟩
    cases hu
  | cons u s ih =>
    cases t with
    | nil =>
      refine ⟨Nat.zero_le _, le_rfl, fun i hi => absurd hi (Nat.not_lt_zero i), ?_⟩
      rintro ⟨u, -, v, hv, -⟩
      cases hv
    | cons v t =>
      obtain ⟨h1, h2, h3, h4⟩ := ih t
      rw [agree]
      split_ifs with hsame
      · refine ⟨Nat.succ_le_succ h1, Nat.succ_le_succ h2, fun i hi => ?_, h4⟩
        cases i with
        | zero => exact ⟨u, rfl, v, rfl, hsame⟩
        | succ i => exact h3 i (Nat.lt_of_succ_lt_succ hi)
      · refine ⟨Nat.zero_le _, Nat.zero_le _, fun i hi => absurd hi (Nat.not_lt_zero i), ?_⟩
        rintro ⟨u', hu, v', hv, h⟩
        cases hu
        cases hv
        exact hsame h

theorem agree_comm (s t : List α) : agree A s t = agree A t s := by
  induction s generalizing t with
  | nil => cases t <;> rfl
  | cons u s ih =>
    cases t with
    | nil => rfl
    | cons v t => rw [agree, agree, ih, same_comm]

theorem sameAt_take {n m : ℕ} :
    SameAt A (s.take n) (t.take m) i ↔ i < n ∧ i < m ∧ SameAt A s t i := by
  unfold SameAt
  rw [List.getElem?_take, List.getElem?_take]
  by_cases h1 : i < n
  · by_cases h2 : i < m
    · simp [h1, h2]
    · simp [h2]
  · simp [h1]

end Agree

/-- **The last separator** in front of `k`. -/
theorem scanBack_spec (s : List α) (k : ℕ) :
    scanBack A.toAlphabet s k = none ∧ (∀ i < k, ¬SepAt A s i) ∨
    ∃ i, scanBack A.toAlphabet s k = some i ∧ i < k ∧ SepAt A s i ∧
      ∀ j, i < j → j < k → ¬SepAt A s j := by
  induction k with
  | zero => exact .inl ⟨rfl, fun i hi => absurd hi (Nat.not_lt_zero i)⟩
  | succ k ih =>
    rw [scanBack]
    split_ifs with hk
    · exact .inr ⟨k, rfl, Nat.lt_succ_self k, hk, fun j hj hj' => absurd hj' (by omega)⟩
    · rcases ih with ⟨hnone, h⟩ | ⟨i, hsome, hi, hsep, h⟩
      · refine .inl ⟨hnone, fun i hi => ?_⟩
        rcases Nat.lt_succ_iff_lt_or_eq.1 hi with hi | rfl
        · exact h i hi
        · exact hk
      · refine .inr ⟨i, hsome, by omega, hsep, fun j hj hj' => ?_⟩
        rcases Nat.lt_succ_iff_lt_or_eq.1 hj' with hj' | rfl
        · exact h j hj hj'
        · exact hk

theorem lastBoundary_le (s : List α) (k : ℕ) : lastBoundary A s k ≤ k := by
  unfold lastBoundary
  rcases scanBack_spec (A := A) s k with ⟨hnone, -⟩ | ⟨i, hsome, hi, -⟩
  · rw [hnone]
    exact Nat.zero_le k
  · rw [hsome]
    dsimp only
    split_ifs <;> omega

instance decidableLone (s : List α) : Decidable (Lone A s) :=
  inferInstanceAs (Decidable (_ ∧ _))

/-- The units of a path that are compared. -/
def compared (A : Letters α) (s : List α) : ℕ := normLen A s s.length

theorem compared_eq (s : List α) :
    compared A s = if Lone A s then 2 else norm A s :=
  normLen_eq (norm_le_length A s) le_rfl

theorem norm_le_compared (s : List α) : norm A s ≤ compared A s := by
  rw [compared_eq]
  split_ifs with h
  · have := h.2.1
    omega
  · exact le_rfl

section Calls

variable [DecidableEq α]

/-- The first units that are not the same, or the end of what is compared. -/
def split (A : Letters α) (s t : List α) : ℕ :=
  agree A (s.take (compared A s)) (t.take (compared A t))

theorem split_spec (s t : List α) :
    split A s t ≤ compared A s ∧ split A s t ≤ compared A t ∧
      (∀ i < split A s t, SameAt A s t i) ∧
      (split A s t < compared A s → split A s t < compared A t → ¬SameAt A s t (split A s t)) := by
  obtain ⟨h1, h2, h3, h4⟩ := agree_spec (A := A) (s.take (compared A s)) (t.take (compared A t))
  rw [List.length_take] at h1 h2
  refine ⟨h1.trans (min_le_left _ _), h2.trans (min_le_left _ _), fun i hi => ?_,
    fun hs ht h => h4 (sameAt_take.2 ⟨hs, ht, h⟩)⟩
  exact (sameAt_take.1 (h3 i hi)).2.2

theorem split_comm (s t : List α) : split A s t = split A t s := agree_comm _ _

/-- **The cases of `PathCommonPrefix`.** -/
theorem pathCommonPrefix_eq (s t : List α) :
    pathCommonPrefix A s t =
      if split A s t = compared A s ∧ split A s t = compared A t then split A s t
      else if split A s t = compared A s ∧ (SepAt A t (split A s t) ∨
          0 < split A s t ∧ SepAt A s (split A s t - 1)) then split A s t
      else if split A s t = compared A t ∧ split A s t ≠ compared A s ∧ (SepAt A s (split A s t) ∨
          0 < split A s t ∧ SepAt A t (split A s t - 1)) then split A s t
      else lastBoundary A s (split A s t) := by
  have heq : pathCommonPrefix A s t =
      if split A s t = compared A s ∧ split A s t = compared A t then split A s t
      else if split A s t = compared A s ∨ split A s t = compared A t then
        if SepAt A (if split A s t = compared A s then t else s) (split A s t) ∨
            0 < split A s t ∧
              SepAt A (if split A s t = compared A s then s else t) (split A s t - 1) then
          split A s t
        else lastBoundary A s (split A s t)
      else lastBoundary A s (split A s t) := rfl
  rw [heq]
  by_cases h1 : split A s t = compared A s
  · by_cases h2 : split A s t = compared A t
    · simp only [eq_true h1, eq_true h2, and_self, if_true]
    · simp only [eq_true h1, eq_false h2, and_false, false_and, true_and, true_or, if_true,
        if_false]
  · by_cases h2 : split A s t = compared A t
    · simp only [eq_false h1, eq_true h2, false_and, true_and, or_true, if_true, if_false, ne_eq,
        not_false_eq_true]
    · simp only [eq_false h1, eq_false h2, false_and, or_self, if_false]

theorem pathCommonPrefix_le (s t : List α) : pathCommonPrefix A s t ≤ s.length := by
  have hcompared : compared A s ≤ s.length := by
    rw [compared_eq]
    split_ifs with h
    · exact h.2.2
    · exact norm_le_length A s
  have hsplit := (split_spec (A := A) s t).1.trans hcompared
  rw [pathCommonPrefix_eq]
  split_ifs
  · exact hsplit
  · exact hsplit
  · exact hsplit
  · exact (lastBoundary_le s _).trans hsplit

/-- **The `int`s of the code** do not matter for paths of at most `INT_MAX` units. -/
theorem sameInInt (hs : s.length ≤ Uniconv.INT_MAX) (ht : t.length ≤ Uniconv.INT_MAX) :
    intCommonPrefix A s t = pathCommonPrefix A s t ∧ intIsPrefix A s t = pathIsPrefix A s t := by
  have hcommon : ∀ {u v : List α}, u.length ≤ Uniconv.INT_MAX → v.length ≤ Uniconv.INT_MAX →
      intCommonPrefix A u v = pathCommonPrefix A u v := by
    intro u v hu hv
    have hle := pathCommonPrefix_le (A := A) u v
    rw [intCommonPrefix, Nat.mod_eq_of_lt (by unfold Uniconv.INT_MAX at hu; omega),
      Nat.mod_eq_of_lt (by unfold Uniconv.INT_MAX at hv; omega)]
    exact Uniconv.toInt_of_le (hle.trans hu)
  refine ⟨hcommon hs ht, ?_⟩
  rw [intIsPrefix, pathIsPrefix, hcommon ht hs, Uniconv.toInt_of_le hs]
  simp only [ne_eq, Int.natCast_inj]

/-- The last separator of the units in common is the same in both. -/
theorem lastBoundary_congr (h : ∀ i < k, SameAt A s t i) :
    lastBoundary A s k = lastBoundary A t k := by
  have hcolon : 2 < k → (s[1]?.any A.isColon = true ↔ t[1]?.any A.isColon = true) :=
    fun hk => (h 1 (by omega)).colonAt_iff
  have hscan : scanBack A.toAlphabet s k = scanBack A.toAlphabet t k := by
    rcases scanBack_spec (A := A) s k with ⟨hs, hno⟩ | ⟨i, hs, hi, hsep, hlast⟩
    · rcases scanBack_spec (A := A) t k with ⟨ht, -⟩ | ⟨j, -, hj, hsep', -⟩
      · rw [hs, ht]
      · exact absurd ((h j hj).sepAt_iff.2 hsep') (hno j hj)
    · rcases scanBack_spec (A := A) t k with ⟨-, hno'⟩ | ⟨j, ht, hj, hsep', hlast'⟩
      · exact absurd ((h i hi).sepAt_iff.1 hsep) (hno' i hi)
      · rcases lt_trichotomy i j with hij | rfl | hij
        · exact absurd ((h j hj).sepAt_iff.2 hsep') (hlast j hij hj)
        · rw [hs, ht]
        · exact absurd ((h i hi).sepAt_iff.1 hsep) (hlast' i hij hi)
  unfold lastBoundary
  rw [hscan]
  rcases scanBack_spec (A := A) t k with ⟨ht, -⟩ | ⟨i, ht, hi, -, -⟩
  · rw [ht]
  · rw [ht]
    dsimp only
    refine if_congr ⟨fun hc => ⟨hc.1, (hcolon (by omega)).1 hc.2⟩,
      fun hc => ⟨hc.1, (hcolon (by omega)).2 hc.2⟩⟩ rfl rfl

/-- **The result is the same when the paths are exchanged.** -/
theorem pathCommonPrefix_comm (s t : List α) :
    pathCommonPrefix A t s = pathCommonPrefix A s t := by
  obtain ⟨-, -, hsame, -⟩ := split_spec (A := A) s t
  have hlast := lastBoundary_congr hsame
  rw [pathCommonPrefix_eq, pathCommonPrefix_eq, split_comm t s, hlast]
  split_ifs <;> first | rfl | (exfalso; tauto)

/-! ### The greatest common prefix -/

theorem common_zero (s t : List α) : Common A s t 0 :=
  ⟨fun i hi => absurd hi (Nat.not_lt_zero i), .inl rfl, .inl rfl⟩

theorem Common.symm (h : Common A s t k) : Common A t s k :=
  ⟨fun i hi => (h.1 i hi).symm, h.2.2, h.2.1⟩

theorem common_root (h : root A s = root A t) (h2 : root A s ≤ 2) : Common A s t (root A s) := by
  refine ⟨fun i hi => ?_, complete_root s, h ▸ complete_root t⟩
  rcases root_cases A s with ⟨hr, -⟩ | ⟨hr, h0, h1, -⟩ | ⟨hr, h0, -⟩ | ⟨hr, -⟩
  · omega
  · rcases root_cases A t with ⟨hr', -⟩ | ⟨-, h0', h1', -⟩ | ⟨hr', -⟩ | ⟨hr', -⟩
    · omega
    · rcases (show i = 0 ∨ i = 1 by omega) with rfl | rfl
      · exact sameAt_of_sepAt h0 h0'
      · exact sameAt_of_sepAt h1 h1'
    · omega
    · omega
  · rcases root_cases A t with ⟨hr', -⟩ | ⟨hr', -⟩ | ⟨-, h0', -⟩ | ⟨hr', -⟩
    · omega
    · omega
    · obtain rfl : i = 0 := by omega
      exact sameAt_of_sepAt h0 h0'
    · omega
  · omega

/-- No common prefix goes on behind the first units that are not the same. -/
theorem common_le_split (h : Common A s t k) : k ≤ split A s t := by
  obtain ⟨-, -, -, hstop⟩ := split_spec (A := A) s t
  have hle : ∀ u : List α, Complete A u k → k ≤ compared A u := by
    intro u hu
    rcases hu with rfl | ⟨-, hn, -⟩
    · exact Nat.zero_le _
    · exact hn.trans (norm_le_compared u)
  have hs := hle s h.2.1
  have ht := hle t h.2.2
  by_contra hlt
  exact hstop (by omega) (by omega) (h.1 _ (by omega))

/-- A common prefix in front of `k` ends with a root or in front of a separator, and one of `k`
units is a root of both. -/
def Inner (A : Letters α) (s t : List α) (k : ℕ) : Prop :=
  ∀ j, Common A s t j → 0 < j →
    j < k ∧ (j = root A s ∨ SepAt A s j) ∧ (j = root A t ∨ SepAt A t j) ∨
    j = k ∧ k = root A s ∧ k = root A t

theorem inner_of_le (hs : k ≤ norm A s) (ht : k ≤ norm A t) (hle : ∀ j, Common A s t j → j ≤ k)
    (hk : Common A s t k → k = 0 ∨ k = root A s ∧ k = root A t) : Inner A s t k := by
  intro j hj hpos
  rcases (hle j hj).lt_or_eq with hlt | rfl
  · have hcut : ∀ u : List α, k ≤ norm A u → Complete A u j → j = root A u ∨ SepAt A u j := by
      intro u hu hc
      rcases hc with rfl | ⟨-, -, hr | hn | hsep⟩
      · omega
      · exact .inl hr
      · omega
      · exact .inr hsep
    exact .inl ⟨hlt, hcut s hs hj.2.1, hcut t ht hj.2.2⟩
  · rcases hk hj with rfl | hr
    · omega
    · exact .inr ⟨rfl, hr⟩

/-- Without a separator in front of `k` nothing is common. -/
theorem Inner.eq_zero (h : Inner A s t k) (hno : ∀ i < k, ¬SepAt A s i) {j : ℕ}
    (hj : Common A s t j) : j = 0 := by
  by_contra hne
  rcases h j hj (by omega) with ⟨hlt, hr | hs', -⟩ | ⟨hjk, hr, -⟩
  · exact hno _ (by omega) (sepAt_root (A := A) (s := s) (by omega))
  · exact hno j hlt hs'
  · exact hno _ (by omega) (sepAt_root (A := A) (s := s) (by omega))

/-- The last separator in front of `k` is the one of a drive. -/
theorem Inner.isGreatest_drive (h : Inner A s t k) (hsame : ∀ i < k, SameAt A s t i) (hk : 2 < k)
    (hc : ColonAt A s 1) (hsep : SepAt A s 2) (hlast : ∀ j, 2 < j → j < k → ¬SepAt A s j) :
    IsGreatest {k | Common A s t k} 3 ∧ root A s = 3 := by
  have hr : root A s = 3 := if_pos ⟨hc, hsep⟩
  have hr' : root A t = 3 :=
    if_pos ⟨(hsame 1 (by omega)).colonAt_iff.1 hc, (hsame 2 hk).sepAt_iff.1 hsep⟩
  refine ⟨⟨⟨fun j hj => hsame j (by omega), hr ▸ complete_root s, hr' ▸ complete_root t⟩,
    fun j hj => ?_⟩, hr⟩
  by_contra hgt
  rcases h j hj (by omega) with ⟨hlt, hj' | hj', -⟩ | ⟨hjk, hj', -⟩
  · omega
  · exact hlast j (by omega) hlt hj'
  · omega

/-- The last separator in front of `k` is inside the root that both have. -/
theorem Inner.rootOnly (h : Inner A s t k) (hle : ∀ j, Common A s t j → j ≤ k)
    (hroot : root A s = root A t → 0 < root A s → root A s ≤ 2 → root A s ≤ k →
      root A s < norm A s ∧ root A t < norm A t ∧ (k = root A s → ¬(SepAt A s k ∧ SepAt A t k)))
    (hlast : ∀ j, i < j → j < k → ¬SepAt A s j) (heq : root A s = root A t)
    (h2 : root A s ≤ 2) (hlt : i < root A s) : RootOnly A s t := by
  have hrk := hle _ (common_root heq h2)
  obtain ⟨hns, hnt, hboth⟩ := hroot heq (by omega) h2 hrk
  refine ⟨heq, by omega, h2, hns, hnt, fun ⟨h1, h1'⟩ => ?_, fun j hj => ?_⟩
  · rcases hrk.lt_or_eq with hlt' | heq'
    · exact hlast _ hlt hlt' h1
    · exact hboth heq'.symm ⟨heq' ▸ h1, heq' ▸ h1'⟩
  · by_contra hgt
    rcases h j hj (by omega) with ⟨hlt', hj' | hj', -⟩ | ⟨hjk, hj', -⟩
    · omega
    · exact hlast j (by omega) hlt' hj'
    · omega

/-- A separator in front of `k` that is not inside the root of both, nor the one of a drive, is
behind the roots. -/
theorem root_le_of_sepAt (hsame : ∀ j < k, SameAt A s t j) (hi : i < k) (hpos : 0 < i)
    (hsep : SepAt A s i) (hdrive : ¬(i = 2 ∧ ColonAt A s 1))
    (hcut : ¬(root A s = root A t ∧ root A s ≤ 2 ∧ i < root A s)) :
    root A s ≤ i ∧ root A t ≤ i := by
  have hti : SepAt A t i := (hsame i hi).sepAt_iff.1 hsep
  constructor
  · by_contra hin
    rcases sepAt_in_root hsep hpos (not_le.1 hin) with ⟨hr, rfl⟩ | ⟨-, h, hc⟩
    · obtain ⟨h0, h1⟩ := sepAt_of_root hr
      have hr' := root_eq_two ((hsame 0 (by omega)).sepAt_iff.1 h0) hti
      exact hcut ⟨hr.trans hr'.symm, hr.le, by omega⟩
    · exact hdrive ⟨h, hc⟩
  · by_contra hin
    rcases sepAt_in_root hti hpos (not_le.1 hin) with ⟨hr', rfl⟩ | ⟨-, rfl, hc⟩
    · obtain ⟨h0, h1⟩ := sepAt_of_root hr'
      have hr := root_eq_two ((hsame 0 (by omega)).sepAt_iff.2 h0) hsep
      exact hcut ⟨hr.trans hr'.symm, hr.le, by omega⟩
    · exact hdrive ⟨rfl, (hsame 1 (by omega)).colonAt_iff.2 hc⟩

/-- The last separator in front of `k` is behind the roots. -/
theorem Inner.isGreatest_sep (h : Inner A s t k) (hs : k ≤ norm A s) (ht : k ≤ norm A t)
    (hsame : ∀ j < k, SameAt A s t j) (hle : ∀ j, Common A s t j → j ≤ k) (hi : i < k)
    (hsep : SepAt A s i) (hlast : ∀ j, i < j → j < k → ¬SepAt A s j)
    (hdrive : ¬(i = 2 ∧ ColonAt A s 1))
    (hcut : ¬(root A s = root A t ∧ root A s ≤ 2 ∧ i < root A s)) :
    IsGreatest {k | Common A s t k} i := by
  have hti : SepAt A t i := (hsame i hi).sepAt_iff.1 hsep
  have hpast := fun hpos => root_le_of_sepAt hsame hi hpos hsep hdrive hcut
  refine ⟨⟨fun j hj => hsame j (hj.trans hi), ?_, ?_⟩, fun j hj => ?_⟩
  · rcases Nat.eq_zero_or_pos i with h | hpos
    · exact .inl h
    · exact .inr ⟨(hpast hpos).1, hi.le.trans hs, .inr (.inr hsep)⟩
  · rcases Nat.eq_zero_or_pos i with h | hpos
    · exact .inl h
    · exact .inr ⟨(hpast hpos).2, hi.le.trans ht, .inr (.inr hti)⟩
  · by_contra hgt
    -- what is left is a root of both
    have hboth : j = root A s ∧ j = root A t := by
      rcases h j hj (by omega) with ⟨hlt, hj1, hj2⟩ | ⟨rfl, hj1, hj2⟩
      · have hno := hlast j (by omega) hlt
        exact ⟨hj1.resolve_right hno,
          hj2.resolve_right fun h => hno ((hsame j hlt).sepAt_iff.2 h)⟩
      · exact ⟨hj1, hj2⟩
    rcases root_cases A s with ⟨hr, hc, h2⟩ | ⟨hr, -⟩ | ⟨hr, -⟩ | ⟨hr, -⟩
    · have hjk := hle j hj
      rcases (show i = 2 ∨ i < 2 by omega) with h | h
      · exact hdrive ⟨h, hc⟩
      · exact hlast 2 h (by omega) h2
    · exact hcut ⟨by omega, by omega, by omega⟩
    · exact hcut ⟨by omega, by omega, by omega⟩
    · omega

/-- **What going back to the last boundary finds**, where `k` is no common prefix itself, or is the
root of both. -/
theorem lastBoundary_iff (hs : k ≤ norm A s) (ht : k ≤ norm A t) (hsame : ∀ i < k, SameAt A s t i)
    (hle : ∀ j, Common A s t j → j ≤ k)
    (hk : Common A s t k → k = 0 ∨ k = root A s ∧ k = root A t)
    (hroot : root A s = root A t → 0 < root A s → root A s ≤ 2 → root A s ≤ k →
      root A s < norm A s ∧ root A t < norm A t ∧ (k = root A s → ¬(SepAt A s k ∧ SepAt A t k))) :
    IsGreatest {k | Common A s t k} (lastBoundary A s k) ↔ ¬RootOnly A s t := by
  have hinner := inner_of_le hs ht hle hk
  unfold lastBoundary
  rcases scanBack_spec (A := A) s k with ⟨hscan, hno⟩ | ⟨i, hscan, hi, hsep, hlast⟩
  · rw [hscan]
    refine iff_of_true ⟨common_zero s t, fun j hj => (hinner.eq_zero hno hj).le⟩ ?_
    rintro ⟨heq, hpos, h2, -⟩
    have := hinner.eq_zero hno (common_root heq h2)
    omega
  · rw [hscan]
    dsimp only
    by_cases hdrive : i = 2 ∧ s[1]?.any A.isColon = true
    · obtain ⟨rfl, hc⟩ := hdrive
      obtain ⟨hgreatest, hr⟩ := hinner.isGreatest_drive hsame hi hc hsep hlast
      rw [if_pos ⟨rfl, hc⟩]
      refine iff_of_true hgreatest ?_
      rintro ⟨-, -, h2, -⟩
      omega
    · rw [if_neg hdrive]
      by_cases hcut : root A s = root A t ∧ root A s ≤ 2 ∧ i < root A s
      · -- going back leaves the root
        obtain ⟨heq, h2, hlt⟩ := hcut
        refine iff_of_false (fun h => ?_)
          (not_not.2 (hinner.rootOnly hle hroot hlast heq h2 hlt))
        exact absurd (h.2 (common_root heq h2)) (by omega)
      · have hgreatest := hinner.isGreatest_sep hs ht hsame hle hi hsep hlast hdrive hcut
        refine iff_of_true hgreatest ?_
        rintro ⟨heq, hpos, h2, -, -, hboth, hmax⟩
        have hri : root A s = i := by
          have := hmax i hgreatest.1
          have := fun h => hcut ⟨heq, h2, h⟩
          omega
        exact hboth ⟨hri ▸ hsep, hri ▸ (hsame i hi).sepAt_iff.1 hsep⟩

theorem setOf_common_comm (s t : List α) : {k | Common A s t k} = {k | Common A t s k} :=
  Set.ext fun _ => ⟨Common.symm, Common.symm⟩

theorem RootOnly.symm (h : RootOnly A s t) : RootOnly A t s := by
  obtain ⟨heq, hpos, h2, hs, ht, hboth, hmax⟩ := h
  rw [heq] at hpos h2 hboth hmax
  exact ⟨heq.symm, hpos, h2, ht, heq ▸ hs, fun h => hboth h.symm, fun k hk => hmax k hk.symm⟩

/-- The root of a path that goes on as another begins is not shorter. -/
theorem root_eq_of_same (h : ∀ i < root A s, SameAt A s t i) (hle : root A t ≤ root A s) :
    root A t = root A s := by
  rcases root_cases A s with ⟨hr, hc, h2⟩ | ⟨hr, h0, h1, -⟩ | ⟨hr, h0, -⟩ | ⟨hr, -⟩
  · rw [hr]
    exact if_pos ⟨(h 1 (by omega)).colonAt_iff.1 hc, (h 2 (by omega)).sepAt_iff.1 h2⟩
  · rw [hr]
    exact root_eq_two ((h 0 (by omega)).sepAt_iff.1 h0) ((h 1 (by omega)).sepAt_iff.1 h1)
  · have hs := (h 0 (by omega)).sepAt_iff.1 h0
    rcases root_cases A t with ⟨hr', -⟩ | ⟨hr', -⟩ | ⟨hr', -⟩ | ⟨-, hs', -⟩
    · omega
    · omega
    · omega
    · exact absurd hs hs'
  · omega

theorem InRoot.lt (h : InRoot A s t) : norm A s < root A t := by
  rcases h with ⟨h, -, h2, -⟩ | ⟨h, h3, -⟩ <;> omega

/-- **The first path ends where they differ**, and the other goes on. -/
theorem isGreatest_short (hks : split A s t = norm A s) (hkt : norm A s < norm A t)
    (hc : SepAt A t (norm A s) ∨ 0 < norm A s ∧ SepAt A s (norm A s - 1)) :
    IsGreatest {k | Common A s t k} (norm A s) ↔ ¬InRoot A s t ∧ ¬RootOnly A s t := by
  obtain ⟨-, -, hsame, -⟩ := split_spec (A := A) s t
  rw [hks] at hsame
  by_cases hrt : norm A s = 0 ∨ root A t ≤ norm A s
  · have hcommon : Common A s t (norm A s) := by
      refine ⟨hsame, .inr ⟨root_le_norm A s, le_rfl, .inr (.inl rfl)⟩, ?_⟩
      rcases hrt with hz | hrt
      · exact .inl hz
      refine .inr ⟨hrt, hkt.le, ?_⟩
      rcases hc with hc | ⟨-, hc⟩
      · exact .inr (.inr hc)
      · have hr := root_eq_norm hc
        rw [← hr] at hsame hrt ⊢
        exact .inl (root_eq_of_same hsame hrt).symm
    refine iff_of_true ⟨hcommon, fun j hj => hks ▸ common_le_split hj⟩ ⟨fun h => ?_, fun h => ?_⟩
    · have := h.lt
      rcases h with ⟨h, -⟩ | ⟨h, -⟩ <;> omega
    · obtain ⟨-, -, -, hlt, -, -, hmax⟩ := h
      have := hmax _ hcommon
      omega
  · obtain ⟨hne, hlt⟩ := not_or.1 hrt
    refine iff_of_false (fun h => ?_) fun h => h.1 ?_
    · rcases h.1.2.2 with h | ⟨h, -⟩
      · exact hne h
      · exact hlt h
    · have hstart : ∀ h0 : SepAt A t 0, norm A s = 1 → InRoot A s t := by
        intro h0 h1
        have hs0 := (hsame 0 (by omega)).sepAt_iff.2 h0
        have := root_le_norm A s
        refine .inl ⟨h1, ?_, by omega, hsame 0 (by omega)⟩
        rcases root_cases A s with ⟨hr, -⟩ | ⟨hr, -⟩ | ⟨hr, -⟩ | ⟨-, hs, -⟩
        · omega
        · omega
        · exact hr
        · exact absurd hs0 hs
      rcases hc with hc | ⟨-, hc⟩
      · rcases sepAt_in_root hc (by omega) (not_le.1 hlt) with ⟨hr, h1⟩ | ⟨hr, h2, -⟩
        · exact hstart (sepAt_of_root hr).1 h1
        · exact .inr ⟨h2, hr, hsame 0 (by omega), hsame 1 (by omega)⟩
      · have hr := root_eq_norm hc
        rcases root_cases A s with ⟨hr', -⟩ | ⟨hr', h0, h1, -⟩ | ⟨hr', h0, -⟩ | ⟨hr', -⟩
        · rcases root_cases A t with ⟨h, -⟩ | ⟨h, -⟩ | ⟨h, -⟩ | ⟨h, -⟩ <;> omega
        · have := root_eq_two ((hsame 0 (by omega)).sepAt_iff.1 h0)
            ((hsame 1 (by omega)).sepAt_iff.1 h1)
          omega
        · exact hstart ((hsame 0 (by omega)).sepAt_iff.1 h0) (by omega)
        · omega

/-- Paths of which all units are compared but the trailing separators. -/
theorem isGreatest_of_le (hs : ¬Lone A s) (ht : ¬Lone A t) (hle : norm A s ≤ norm A t) :
    IsGreatest {k | Common A s t k} (pathCommonPrefix A s t) ↔
      ¬InRoot A s t ∧ ¬InRoot A t s ∧ ¬RootOnly A s t := by
  have hcs : compared A s = norm A s := by rw [compared_eq, if_neg hs]
  have hct : compared A t = norm A t := by rw [compared_eq, if_neg ht]
  obtain ⟨hks, hkt, hsame, hstop⟩ := split_spec (A := A) s t
  have hin' : ¬InRoot A t s := by
    intro h
    have := h.lt
    have := root_le_norm A s
    omega
  rw [pathCommonPrefix_eq]
  rw [hcs, hct] at *
  by_cases h1 : split A s t = norm A s
  · have hmost : ∀ j, Common A s t j → j ≤ norm A s := fun j hj => h1 ▸ common_le_split hj
    rw [h1] at hsame ⊢
    by_cases h2 : norm A s = norm A t
    · -- both are compared to their ends
      rw [if_pos ⟨rfl, h2⟩]
      have hcommon : Common A s t (norm A s) := by
        refine ⟨hsame, .inr ⟨root_le_norm A s, le_rfl, .inr (.inl rfl)⟩, ?_⟩
        rw [h2]
        exact .inr ⟨root_le_norm A t, le_rfl, .inr (.inl rfl)⟩
      refine iff_of_true ⟨hcommon, hmost⟩ ⟨fun h => ?_, hin', fun h => ?_⟩
      · have := h.lt
        have := root_le_norm A t
        rcases h with ⟨h, -⟩ | ⟨h, -⟩ <;> omega
      · obtain ⟨-, -, -, hlt, -, -, hmax⟩ := h
        have := hmax _ hcommon
        omega
    · rw [if_neg fun h => h2 h.2]
      by_cases hc : SepAt A t (norm A s) ∨ 0 < norm A s ∧ SepAt A s (norm A s - 1)
      · rw [if_pos ⟨rfl, hc⟩, isGreatest_short h1 (by omega) hc]
        exact ⟨fun h => ⟨h.1, hin', h.2⟩, fun h => ⟨h.1, h.2.2⟩⟩
      · rw [if_neg fun h => hc h.2, if_neg fun h => h.2.1 rfl]
        obtain ⟨hnt, hns⟩ := not_or.1 hc
        rw [lastBoundary_iff le_rfl hle hsame hmost]
        · refine ⟨fun h => ⟨fun hin => ?_, hin', h⟩, fun h => h.2.2⟩
          rcases hin with ⟨hn, hr, -⟩ | ⟨hn, hr, -⟩
          · have hsep := sepAt_root (A := A) (s := s) (by omega)
            rw [hr] at hsep
            exact hns ⟨by omega, hn ▸ hsep⟩
          · refine hnt ?_
            rw [hn]
            have := sepAt_root (A := A) (s := t) (by omega)
            rwa [hr] at this
        · intro hcommon
          rcases hcommon.2.2 with h | ⟨-, -, h | h | h⟩
          · exact .inl h
          · by_contra hno
            have hpos : 0 < norm A s := by omega
            have hsep := sepAt_root (A := A) (s := t) (by omega)
            rw [← h] at hsep
            exact hns ⟨hpos, (hsame _ (by omega)).sepAt_iff.2 hsep⟩
          · exact absurd h h2
          · exact absurd h hnt
        · intro heq hpos h2' hrk
          have hlt : root A s < norm A s := by
            refine lt_of_le_of_ne hrk fun h => hns ⟨by omega, ?_⟩
            rw [← h]
            exact sepAt_root hpos
          exact ⟨hlt, by omega, fun _ h => hnt h.2⟩
  · -- the paths differ in the middle
    have hk : split A s t < norm A s := by omega
    have hdiff := hstop hk (by omega)
    rw [if_neg fun h => h1 h.1, if_neg fun h => h1 h.1, if_neg fun h => absurd h.1 (by omega)]
    rw [lastBoundary_iff hks hkt hsame fun j hj => common_le_split hj]
    · refine ⟨fun h => ⟨fun hin => ?_, hin', h⟩, fun h => h.2.2⟩
      rcases hin with ⟨hn, -, -, h0⟩ | ⟨hn, -, h0, h1'⟩
      · have hz : split A s t = 0 := by omega
        exact hdiff (hz ▸ h0)
      · rcases (show split A s t = 0 ∨ split A s t = 1 by omega) with hz | hz
        · exact hdiff (hz ▸ h0)
        · exact hdiff (hz ▸ h1')
    · intro hcommon
      by_contra hno
      obtain ⟨hpos, hno⟩ := not_or.1 hno
      obtain ⟨hrs, -, hs'⟩ := hcommon.2.1.resolve_left hpos
      obtain ⟨hrt, -, ht'⟩ := hcommon.2.2.resolve_left hpos
      have hroots : split A s t = root A s ∨ split A s t = root A t := by
        by_contra hne
        obtain ⟨hne1, hne2⟩ := not_or.1 hne
        rcases hs' with h | h | hsep
        · exact hne1 h
        · exact h1 h
        rcases ht' with h | h | hsep'
        · exact hne2 h
        · omega
        exact hdiff (sameAt_of_sepAt hsep hsep')
      rcases hroots with h | h
      · rw [h] at hsame hrt
        exact hno ⟨h, h.trans (root_eq_of_same hsame hrt).symm⟩
      · rw [h] at hsame hrs
        exact hno ⟨h.trans (root_eq_of_same (fun i hi => (hsame i hi).symm) hrs).symm, h⟩
    · intro heq hpos h2' hrk
      exact ⟨by omega, by omega, fun _ h => hdiff (sameAt_of_sepAt h.1 h.2)⟩

/-- **A lone unit with separators behind it** keeps one of them, which may be taken for a part of
the prefix. -/
theorem isGreatest_lone (hs : Lone A s) :
    IsGreatest {k | Common A s t k} (pathCommonPrefix A s t) ↔
      ¬(SameAt A s t 0 ∧ SameAt A s t 1) := by
  obtain ⟨hks, hkt, hsame, hstop⟩ := split_spec (A := A) s t
  have hcs : compared A s = 2 := by rw [compared_eq, if_pos hs]
  obtain ⟨hroot, hnorm, hlen⟩ := hs
  have h0 : ¬SepAt A s 0 := by
    rcases root_cases A s with ⟨hr, -⟩ | ⟨hr, -⟩ | ⟨hr, -⟩ | ⟨-, h0, -⟩
    · omega
    · omega
    · omega
    · exact h0
  have h1 : SepAt A s 1 := sepAt_of_norm_le (by omega) (by omega)
  rw [pathCommonPrefix_eq]
  rw [hcs] at hks hstop ⊢
  by_cases hboth : SameAt A s t 0 ∧ SameAt A s t 1
  · -- both units are in common, and the separator is kept
    refine iff_of_false (fun h => ?_) (not_not.2 hboth)
    have ht0 : ¬SepAt A t 0 := fun h => h0 (hboth.1.sepAt_iff.2 h)
    have ht1 : SepAt A t 1 := hboth.2.sepAt_iff.1 h1
    have hct : 2 ≤ compared A t := by
      rw [compared_eq]
      split_ifs with hlone
      · exact le_rfl
      · by_contra hlt
        have hpos := norm_pos (A := A) (List.ne_nil_of_length_pos (Nat.zero_lt_of_lt ht1.lt))
        have hr : root A t = 0 := by
          rcases root_cases A t with ⟨hr, hc, -⟩ | ⟨-, h, -⟩ | ⟨-, h, -⟩ | ⟨hr, -⟩
          · exact absurd ht1 hc.not_sepAt
          · exact absurd h ht0
          · exact absurd h ht0
          · exact hr
        exact hlone ⟨hr, by omega, ht1.lt⟩
    have hk : split A s t = 2 := by
      by_contra hne
      refine hstop (by omega) (by omega) ?_
      rcases (show split A s t = 0 ∨ split A s t = 1 by omega) with hz | hz
      · exact hz ▸ hboth.1
      · exact hz ▸ hboth.2
    have htwo : Complete A s 2 := by
      rw [hk] at h
      split_ifs at h with hend hsep
      · exact h.1.2.1
      · exact h.1.2.1
      · exact absurd ⟨rfl, .inr ⟨by omega, h1⟩⟩ hsep
      · exact absurd ⟨rfl, .inr ⟨by omega, h1⟩⟩ hsep
    rcases htwo with h | ⟨-, h, -⟩ <;> omega
  · refine iff_of_true ?_ hboth
    have hk : split A s t ≤ 1 := by
      by_contra hgt
      exact hboth ⟨hsame 0 (by omega), hsame 1 (by omega)⟩
    have hback : lastBoundary A s (split A s t) = 0 := by
      unfold lastBoundary
      rcases scanBack_spec (A := A) s (split A s t) with ⟨h, -⟩ | ⟨i, -, hi, hsep, -⟩
      · rw [h]
      · obtain rfl : i = 0 := by omega
        exact absurd hsep h0
    rw [if_neg (by omega), if_neg (by omega), hback]
    rcases (show split A s t = 0 ∨ split A s t = 1 by omega) with hz | hone
    · rw [hz, ite_self]
      exact ⟨common_zero s t, fun j hj => hz ▸ common_le_split hj⟩
    · rw [hone] at hsame hkt ⊢
      have hmost : ∀ j, Common A s t j → j ≤ 1 := fun j hj => hone ▸ common_le_split hj
      have ht0 : ¬SepAt A t 0 := fun h => h0 ((hsame 0 (by omega)).sepAt_iff.2 h)
      have ht1 : ¬SepAt A t 1 := fun h => hboth ⟨hsame 0 (by omega), sameAt_of_sepAt h1 h⟩
      by_cases hct : compared A t = 1
      · rw [if_pos ⟨hct.symm, by omega, .inl h1⟩]
        have hnt : norm A t = 1 := by
          have hlt := (hsame 0 (by omega)).lt.2
          have := norm_pos (A := A) (List.length_pos_iff.1 hlt)
          have := norm_le_compared (A := A) t
          omega
        refine ⟨⟨hsame, ?_, ?_⟩, hmost⟩
        · exact .inr ⟨by omega, by omega, .inr (.inl hnorm.symm)⟩
        · exact .inr ⟨hnt ▸ root_le_norm A t, by omega, .inr (.inl hnt.symm)⟩
      · rw [if_neg fun h => hct h.1.symm]
        refine ⟨common_zero s t, fun j hj => ?_⟩
        by_contra hne
        obtain rfl : j = 1 := by
          have := hmost j hj
          omega
        rcases hj.2.2 with h | ⟨-, -, h | h | h⟩
        · omega
        · have := sepAt_root (A := A) (s := t) (by omega)
          rw [← h] at this
          exact ht0 this
        · rw [compared_eq] at hct
          split_ifs at hct with hlone
          · exact ht1 (sepAt_of_norm_le h.symm.le hlone.2.2)
          · exact hct h.symm
        · exact ht1 h

theorem Good.symm (h : Good A s t) : Good A t s :=
  ⟨fun hl hsame => h.lone hl.symm ⟨hsame.1.symm, hsame.2.symm⟩, h.inRoot', h.inRoot,
    fun hr => h.rootOnly hr.symm⟩

theorem Lone.good_iff (hs : Lone A s) : Good A s t ↔ ¬(SameAt A s t 0 ∧ SameAt A s t 1) := by
  refine ⟨fun h => h.lone (.inl hs), fun h => ⟨fun _ => h, ?_, ?_, ?_⟩⟩
  · rintro (⟨-, hr, -⟩ | ⟨hn, -⟩)
    · have := hs.1
      omega
    · have := hs.2.1
      omega
  · intro hin
    have := hs.1
    rcases hin with ⟨-, -, hr, -⟩ | ⟨-, hr, -⟩ <;> omega
  · rintro ⟨-, hpos, -⟩
    have := hs.1
    omega

/-- **When the greatest common prefix is found.** -/
theorem isGreatest_iff (s t : List α) :
    IsGreatest {k | Common A s t k} (pathCommonPrefix A s t) ↔ Good A s t := by
  have hcomm : Good A s t ↔ Good A t s := ⟨Good.symm, Good.symm⟩
  by_cases hs : Lone A s
  · rw [isGreatest_lone hs, hs.good_iff]
  by_cases ht : Lone A t
  · rw [← pathCommonPrefix_comm, setOf_common_comm, isGreatest_lone ht, hcomm, ht.good_iff]
  have hgood : Good A s t ↔ ¬InRoot A s t ∧ ¬InRoot A t s ∧ ¬RootOnly A s t :=
    ⟨fun h => ⟨h.inRoot, h.inRoot', h.rootOnly⟩,
      fun h => ⟨fun hl => absurd hl (not_or.2 ⟨hs, ht⟩), h.1, h.2.1, h.2.2⟩⟩
  rw [hgood]
  rcases le_total (norm A s) (norm A t) with hle | hle
  · exact isGreatest_of_le hs ht hle
  · rw [← pathCommonPrefix_comm, setOf_common_comm, isGreatest_of_le ht hs hle]
    exact ⟨fun h => ⟨h.2.1, h.1, fun hr => h.2.2 hr.symm⟩,
      fun h => ⟨h.2.1, h.1, fun hr => h.2.2 hr.symm⟩⟩

/-! ### Prefixes -/

/-- **When a prefix is recognized**: it has no trailing separators to be left out. -/
theorem pathIsPrefix_iff (hgood : Good A s t) :
    pathIsPrefix A s t = true ↔ IsPrefix A s t ∧ norm A s = s.length := by
  have hgreatest := (isGreatest_iff s t).2 hgood
  have hcomm := pathCommonPrefix_comm (A := A) s t
  unfold pathIsPrefix
  constructor
  · intro h
    split_ifs at h with hno
    obtain ⟨hne, hlen⟩ := not_or.1 hno
    rw [not_not, hcomm] at hlen
    rw [hlen] at hgreatest
    have hpos := List.length_pos_iff.2 hne
    have hnorm : norm A s = s.length := by
      have := norm_le_length A s
      rcases hgreatest.1.2.1 with h | ⟨-, h, -⟩ <;> omega
    exact ⟨⟨hne, hnorm ▸ hgreatest.1⟩, hnorm⟩
  · rintro ⟨⟨hne, hcommon⟩, hnorm⟩
    rw [hnorm] at hcommon
    have hpos := List.length_pos_iff.2 hne
    have hlen : pathCommonPrefix A s t = s.length := by
      refine hgreatest.unique ⟨hcommon, fun j hj => ?_⟩
      rcases hj.2.1 with h | ⟨-, h, -⟩ <;> omega
    rw [if_neg (not_or.2 ⟨hne, not_not.2 (hcomm.trans hlen)⟩), Bool.or_eq_true]
    rcases hcommon.2.2 with h | ⟨-, -, h | h | h⟩
    · omega
    · right
      have := sepAt_root (A := A) (s := t) (by omega)
      rw [← h] at this
      exact (hcommon.1 _ (by omega)).sepAt_iff.2 this
    · left
      rcases Nat.lt_or_ge s.length t.length with hlt | hge
      · have := sepAt_of_norm_le (A := A) h.symm.le hlt
        unfold SepAt at this
        rw [List.getElem?_eq_getElem hlt, Option.any_some] at this
        rw [List.getElem?_eq_getElem hlt]
        exact this
      · rw [List.getElem?_eq_none hge]
        rfl
    · left
      have hlt := h.lt
      unfold SepAt at h
      rw [List.getElem?_eq_getElem hlt, Option.any_some] at h
      rw [List.getElem?_eq_getElem hlt]
      exact h

/-- **When both calls are right.** -/
theorem right_iff_good (s t : List α) :
    Right A s t ↔ Good A s t ∧ (IsPrefix A s t → norm A s = s.length) := by
  constructor
  · intro h
    have hgood := (isGreatest_iff s t).1 h.greatest
    exact ⟨hgood, fun hp => ((pathIsPrefix_iff hgood).1 (h.isPrefix.2 hp)).2⟩
  · rintro ⟨hgood, hnorm⟩
    refine ⟨(isGreatest_iff s t).2 hgood, pathCommonPrefix_comm s t, ?_, ?_⟩
    · unfold copied
      dsimp only
      split_ifs with h
      · rfl
      · rw [not_not.1 h, List.take_zero]
    · rw [pathIsPrefix_iff hgood]
      exact ⟨fun h => h.1, fun h => ⟨h, hnorm h⟩⟩

theorem sameAt_self (h : i < s.length) : SameAt A s s i := by
  refine ⟨s[i], List.getElem?_eq_getElem h, s[i], List.getElem?_eq_getElem h, ?_⟩
  unfold same
  rw [if_neg (not_not.2 rfl), decide_eq_true rfl, Bool.or_true]

theorem SameAt.trans {r : List α} (h : SameAt A s t i) (h' : SameAt A t r i) : SameAt A s r i := by
  obtain ⟨u, hu, v, hv, h⟩ := h
  obtain ⟨v', hv', w, hw, h'⟩ := h'
  obtain rfl := Option.mem_unique hv hv'
  refine ⟨u, hu, w, hw, ?_⟩
  unfold same at h h' ⊢
  split_ifs at h h' with h1 h2
  rw [not_not] at h1 h2
  rw [if_neg (not_not.2 (h1.trans h2))]
  rcases Bool.or_eq_true_iff.1 h with hs | hl
  · rw [hs, Bool.true_or]
  · rcases Bool.or_eq_true_iff.1 h' with hs | hl'
    · rw [h1, hs, Bool.true_or]
    · rw [of_decide_eq_true hl, of_decide_eq_true hl', decide_eq_true rfl, Bool.or_true]

/-- **Each path is a prefix of itself.** -/
theorem IsPrefix.refl (h : s ≠ []) : IsPrefix A s s := by
  have hcomplete : Complete A s (norm A s) := .inr ⟨root_le_norm A s, le_rfl, .inr (.inl rfl)⟩
  refine ⟨h, fun i hi => sameAt_self (hi.trans_le (norm_le_length A s)), hcomplete, hcomplete⟩

/-- **A prefix of a prefix is a prefix.** -/
theorem IsPrefix.trans {r : List α} (h : IsPrefix A s t) (h' : IsPrefix A t r) :
    IsPrefix A s r := by
  obtain ⟨hne, hsame, hcs, hct⟩ := h
  obtain ⟨hne', hsame', -, hcr⟩ := h'
  have hpos := norm_pos (A := A) hne
  have hpos' := norm_pos (A := A) hne'
  obtain ⟨hrt, hnt, hcut⟩ := hct.resolve_left (by omega)
  obtain ⟨hrr, hnr, hcut'⟩ := hcr.resolve_left (by omega)
  have hroot : root A r = root A t := by
    rcases le_total (root A r) (root A t) with hle | hle
    · exact root_eq_of_same (fun i hi => hsame' i (hi.trans_le (root_le_norm A t))) hle
    · exact (root_eq_of_same (fun i hi => (hsame' i (by omega)).symm) hle).symm
  refine ⟨hne, fun i hi => (hsame i hi).trans (hsame' i (by omega)), hcs,
    .inr ⟨by omega, by omega, ?_⟩⟩
  rcases hnt.lt_or_eq with hlt | heq
  · rcases hcut with h | h | h
    · exact .inl (h.trans hroot.symm)
    · omega
    · exact .inr (.inr ((hsame' _ hlt).sepAt_iff.1 h))
  · rw [heq]
    exact hcut'

end Calls

/-! ### Bytes and wide characters -/

/-- `path_lower_w`, and `tolower` of the C locale for bytes -/
def lowerUnit (c : ℕ) : ℕ := if 65 ≤ c ∧ c ≤ 90 then c + 32 else c

theorem lowerUnit_eq_colon {c : ℕ} : lowerUnit c = 0x3A ↔ c = 0x3A := by
  unfold lowerUnit
  split_ifs <;> omega

theorem lower_byte_inj {u v : UInt8} :
    (lowerUnit u.toNat).toUInt8 = (lowerUnit v.toNat).toUInt8 ↔
      lowerUnit u.toNat = lowerUnit v.toNat := by
  have hlt : ∀ w : UInt8, lowerUnit w.toNat < 256 := fun w => by
    have := w.toNat_lt
    unfold lowerUnit
    split_ifs <;> omega
  refine ⟨fun h => ?_, congrArg _⟩
  have h := congrArg UInt8.toNat h
  rwa [Nat.toUInt8_eq, Nat.toUInt8_eq, UInt8.toNat_ofNat', UInt8.toNat_ofNat',
    Nat.mod_eq_of_lt (hlt u), Nat.mod_eq_of_lt (hlt v)] at h

theorem isColon_of_lowerUnit {c d : ℕ} (h : lowerUnit c = lowerUnit d) :
    units.isColon c = units.isColon d := by
  change (c == 0x3A) = (d == 0x3A)
  rw [Bool.eq_iff_iff, beq_iff_eq, beq_iff_eq, ← lowerUnit_eq_colon, h, lowerUnit_eq_colon]

def byteLetters : Letters UInt8 where
  toAlphabet := bytes
  lower u := (lowerUnit u.toNat).toUInt8
  isColon_of_lower h := by
    rw [(bytes_eq rfl).2.1, (bytes_eq rfl).2.1, isColon_of_lowerUnit (lower_byte_inj.1 h)]

def wideLetters : Letters ℕ where
  toAlphabet := units
  lower := lowerUnit
  isColon_of_lower := isColon_of_lowerUnit

def PathCommonPrefixA := pathCommonPrefix byteLetters

def PathCommonPrefixW := pathCommonPrefix wideLetters

def PathIsPrefixA := pathIsPrefix byteLetters

def PathIsPrefixW := pathIsPrefix wideLetters

section Widen

variable {s t : List UInt8}

theorem isSep_toNat (u : UInt8) : wideLetters.isSep u.toNat = byteLetters.isSep u :=
  (bytes_eq rfl).1.symm

theorem any_sep_map (s : List UInt8) (i : ℕ) :
    (s.map UInt8.toNat)[i]?.any wideLetters.isSep = s[i]?.any byteLetters.isSep := by
  rw [List.getElem?_map]
  cases s[i]? with
  | none => rfl
  | some u => exact isSep_toNat u

theorem any_colon_map (s : List UInt8) (i : ℕ) :
    (s.map UInt8.toNat)[i]?.any wideLetters.isColon = s[i]?.any byteLetters.isColon := by
  rw [List.getElem?_map]
  cases s[i]? with
  | none => rfl
  | some u => exact (bytes_eq rfl).2.1.symm

theorem all_sep_map (s : List UInt8) (i : ℕ) :
    (s.map UInt8.toNat)[i]?.all wideLetters.isSep = s[i]?.all byteLetters.isSep := by
  rw [List.getElem?_map]
  cases s[i]? with
  | none => rfl
  | some u => exact isSep_toNat u

theorem same_toNat (u v : UInt8) : same wideLetters u.toNat v.toNat = same byteLetters u v := by
  unfold same
  rw [isSep_toNat, isSep_toNat]
  congr 2
  exact decide_eq_decide.2 lower_byte_inj.symm

theorem normLen_map (s : List UInt8) (n : ℕ) :
    normLen wideLetters (s.map UInt8.toNat) n = normLen byteLetters s n := by
  fun_induction normLen byteLetters s n <;>
    simp_all only [normLen, any_sep_map, any_colon_map, if_true, if_false, and_self,
      Bool.false_eq_true]

theorem agree_map (s t : List UInt8) :
    agree wideLetters (s.map UInt8.toNat) (t.map UInt8.toNat) = agree byteLetters s t := by
  induction s generalizing t with
  | nil => cases t <;> rfl
  | cons u s ih =>
    cases t with
    | nil => rfl
    | cons v t => rw [List.map_cons, List.map_cons, agree, agree, same_toNat, ih]

theorem scanBack_map (s : List UInt8) (n : ℕ) :
    scanBack wideLetters.toAlphabet (s.map UInt8.toNat) n =
      scanBack byteLetters.toAlphabet s n := by
  induction n with
  | zero => rfl
  | succ n ih => rw [scanBack, scanBack, any_sep_map, ih]

/-- **The forms find the same common prefix** of bytes and of the wide characters that are them. -/
theorem pathCommonPrefix_map (s t : List UInt8) :
    PathCommonPrefixW (s.map UInt8.toNat) (t.map UInt8.toNat) = PathCommonPrefixA s t := by
  have hite : ∀ (c : Prop) [Decidable c] (a b : List UInt8),
      (if c then a.map UInt8.toNat else b.map UInt8.toNat) = (if c then a else b).map UInt8.toNat :=
    fun c _ a b => (apply_ite _ c a b).symm
  unfold PathCommonPrefixW PathCommonPrefixA pathCommonPrefix commonPrefix lastBoundary
  simp only [List.length_map, normLen_map, ← List.map_take, agree_map, hite, any_sep_map,
    any_colon_map, scanBack_map]

theorem pathIsPrefix_map (s t : List UInt8) :
    PathIsPrefixW (s.map UInt8.toNat) (t.map UInt8.toNat) = PathIsPrefixA s t := by
  have hcommon := pathCommonPrefix_map t s
  unfold PathCommonPrefixW PathCommonPrefixA at hcommon
  unfold PathIsPrefixW PathIsPrefixA pathIsPrefix
  simp only [hcommon, List.length_map, List.map_eq_nil_iff, all_sep_map, any_sep_map]

end Widen

theorem map_toNat_utf8 {cs : List ℕ} (h : ∀ c ∈ cs, c < 0x80) :
    (cs.flatMap Uniconv.utf8).map UInt8.toNat = cs := by
  induction cs with
  | nil => rfl
  | cons c cs ih =>
    have hc := h c List.mem_cons_self
    obtain ⟨b, hb, hbc⟩ := Uniconv.utf8One_eq hc
    rw [List.flatMap_cons, List.map_append, ih fun d hd => h d (List.mem_cons_of_mem c hd),
      Uniconv.utf8, if_pos hc, hb, List.map_singleton, hbc, List.singleton_append]

/-- **`PathCommonPrefix` and `PathIsPrefix`**: when both calls are right, for bytes and for wide
characters; prefixes are reflexive and transitive, and the forms agree on ASCII.  Up to `INT_MAX`
units the calls do the same with the `int`s of the code. -/
theorem commonPrefix_iff (s t : List UInt8) (p q r : List ℕ) :
    (Right byteLetters s t ↔ Good byteLetters s t ∧
      (IsPrefix byteLetters s t → norm byteLetters s = s.length)) ∧
    (Right wideLetters p q ↔ Good wideLetters p q ∧
      (IsPrefix wideLetters p q → norm wideLetters p = p.length)) ∧
    (p ≠ [] → IsPrefix wideLetters p p) ∧
    (IsPrefix wideLetters p q → IsPrefix wideLetters q r → IsPrefix wideLetters p r) ∧
    ((∀ c ∈ p, c < 0x80) → (∀ d ∈ q, d < 0x80) →
      PathCommonPrefixA (p.flatMap Uniconv.utf8) (q.flatMap Uniconv.utf8) =
        PathCommonPrefixW p q ∧
      PathIsPrefixA (p.flatMap Uniconv.utf8) (q.flatMap Uniconv.utf8) = PathIsPrefixW p q) ∧
    (s.length ≤ Uniconv.INT_MAX → t.length ≤ Uniconv.INT_MAX →
      intCommonPrefix byteLetters s t = pathCommonPrefix byteLetters s t ∧
      intIsPrefix byteLetters s t = pathIsPrefix byteLetters s t) ∧
    (p.length ≤ Uniconv.INT_MAX → q.length ≤ Uniconv.INT_MAX →
      intCommonPrefix wideLetters p q = pathCommonPrefix wideLetters p q ∧
      intIsPrefix wideLetters p q = pathIsPrefix wideLetters p q) := by
  refine ⟨right_iff_good s t, right_iff_good p q, IsPrefix.refl,
    fun h h' => IsPrefix.trans h h', fun hp hq => ?_, sameInInt, sameInInt⟩
  have hC := pathCommonPrefix_map (p.flatMap Uniconv.utf8) (q.flatMap Uniconv.utf8)
  have hP := pathIsPrefix_map (p.flatMap Uniconv.utf8) (q.flatMap Uniconv.utf8)
  rw [map_toNat_utf8 hp, map_toNat_utf8 hq] at hC hP
  exact ⟨hC.symm, hP.symm⟩

/-- `/a` and `/b` have the root in common, but no common prefix is found; and `/a/` is not
recognized as a prefix of itself. -/
theorem root_not_found :
    ¬Right byteLetters [0x2F, 0x61] [0x2F, 0x62] ∧
      ¬Right byteLetters [0x2F, 0x61, 0x2F] [0x2F, 0x61, 0x2F] := by
  constructor
  · intro h
    have hcommon : Common byteLetters [0x2F, 0x61] [0x2F, 0x62] 1 := by
      refine ⟨fun i hi => ?_, by decide, by decide⟩
      obtain rfl : i = 0 := by omega
      exact ⟨0x2F, rfl, 0x2F, rfl, by decide⟩
    have hfound : pathCommonPrefix byteLetters [0x2F, 0x61] [0x2F, 0x62] = 0 := by decide
    have hle := h.greatest.2 hcommon
    rw [hfound] at hle
    exact absurd hle (by decide)
  · intro h
    have hself := h.isPrefix.2 (IsPrefix.refl (by decide))
    exact absurd hself (by decide)

end CommonPrefix

end Shlwapi

end Swinx
