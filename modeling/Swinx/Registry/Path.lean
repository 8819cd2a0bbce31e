import Mathlib.Data.List.Chain
import Swinx.Data.CString

/-!
# Paths of registry keys

A path is the name of a predefined key and the names of sub-keys, separated by backslashes.  It has
a written form and an index form, the written one in lower case.  `IsPath` says what is true of the
written form of every path the registry stores.
-/

namespace Swinx

namespace Registry

abbrev backslash : UInt8 := 92

/-! ### Definitions -/

/-- `lowerAscii` of a byte. -/
def lowerByte (c : UInt8) : UInt8 := if 65 ≤ c ∧ c ≤ 90 then c + 32 else c

/-- `lowerAscii` -/
def lowerAscii (s : Bytes) : Bytes := s.map lowerByte

/-- `toupper` of every byte. -/
def upperAscii (s : Bytes) : Bytes := s.map fun c => if 97 ≤ c ∧ c ≤ 122 then c - 32 else c

/-- One byte in the loop of `collapseSeparators`. -/
def pushCollapsed (out : Bytes) (c : UInt8) : Bytes :=
  if c = backslash ∧ out.getLast? = some backslash then out else out ++ [c]

/-- `collapseSeparators`: repeated separators become one, and those at the end are dropped. -/
def collapseSeparators (s : Bytes) : Bytes :=
  (s.foldl pushCollapsed []).rdropWhile (· = backslash)

/-- The predefined keys, in the order of `roots`. -/
def roots : List Bytes :=
  [ascii "hkey_classes_root", ascii "hkey_current_user", ascii "hkey_local_machine",
    ascii "hkey_users", ascii "hkey_current_config"]

/-- The path up to its first separator. -/
def rootOf (s : Bytes) : Bytes := s.takeWhile (· ≠ backslash)

/-- **The written form of a path.** -/
structure IsPath (w : Bytes) : Prop where
  /-- Its separators are single and inside. -/
  collapsed : collapseSeparators w = w
  root : lowerAscii (rootOf w) ∈ roots
  nul : 0 ∉ w

/-! ### Lower case -/

theorem lowerByte_lowerByte (c : UInt8) : lowerByte (lowerByte c) = lowerByte c := by
  grind [lowerByte]

/-- Bytes that are no letters are not changed, and nothing is changed into them. -/
theorem lowerByte_eq_iff {c d : UInt8} (hd : d < 65 ∨ 90 < d ∧ d < 97) :
    lowerByte c = d ↔ c = d := by
  grind [lowerByte]

@[simp] theorem lowerAscii_lowerAscii (s : Bytes) : lowerAscii (lowerAscii s) = lowerAscii s := by
  simp [lowerAscii, Function.comp_def, lowerByte_lowerByte]

theorem lowerAscii_upperAscii (s : Bytes) : lowerAscii (upperAscii s) = lowerAscii s := by
  have h : ∀ c : UInt8, lowerByte (if 97 ≤ c ∧ c ≤ 122 then c - 32 else c) = lowerByte c := by
    grind [lowerByte]
  simp only [lowerAscii, upperAscii, List.map_map]
  exact List.map_congr_left fun c _ => h c

theorem mem_lowerAscii {d : UInt8} {s : Bytes} (hd : d < 65 ∨ 90 < d ∧ d < 97) :
    d ∈ lowerAscii s ↔ d ∈ s := by
  simp [lowerAscii, List.mem_map, lowerByte_eq_iff hd]

theorem lowerByte_eq_backslash {c : UInt8} : lowerByte c = backslash ↔ c = backslash :=
  lowerByte_eq_iff (by decide)

theorem rootOf_lowerAscii (s : Bytes) : rootOf (lowerAscii s) = lowerAscii (rootOf s) := by
  have h : ((fun c => decide (c ≠ backslash)) ∘ lowerByte) = fun c => decide (c ≠ backslash) := by
    funext c
    simp [lowerByte_eq_backslash]
  rw [rootOf, lowerAscii, List.takeWhile_map, h]
  rfl

/-- No separator follows another one. -/
def SingleSeparators (s : Bytes) : Prop := s.IsChain fun a b => ¬ (a = backslash ∧ b = backslash)

theorem singleSeparators_pushCollapsed {out : Bytes} (h : SingleSeparators out) (c : UInt8) :
    SingleSeparators (pushCollapsed out c) := by
  unfold pushCollapsed
  split_ifs with hc
  · exact h
  · refine List.isChain_append.2 ⟨h, List.isChain_singleton c, fun a ha b hb hab => ?_⟩
    obtain rfl : c = b := by simpa using hb
    exact hc ⟨hab.2, hab.1 ▸ ha⟩

theorem singleSeparators_foldl {out : Bytes} (h : SingleSeparators out) (s : Bytes) :
    SingleSeparators (s.foldl pushCollapsed out) := by
  induction s generalizing out with
  | nil => exact h
  | cons c s ih => exact ih (singleSeparators_pushCollapsed h c)

theorem foldl_pushCollapsed_eq {out s : Bytes} (h : SingleSeparators (out ++ s)) :
    s.foldl pushCollapsed out = out ++ s := by
  induction s generalizing out with
  | nil => simp
  | cons c s ih =>
    have hpush : pushCollapsed out c = out ++ [c] := by
      refine if_neg fun hc => ?_
      exact (List.isChain_append.1 h).2.2 _ hc.2 c (by simp) ⟨rfl, hc.1⟩
    rw [List.foldl_cons, hpush, ih (by simpa using h)]
    simp

/-- `collapseSeparators` drops separators at the end of what its loop builds. -/
theorem foldl_pushCollapsed_eq_append (s : Bytes) :
    s.foldl pushCollapsed [] = collapseSeparators s ++
      (s.foldl pushCollapsed []).rtakeWhile (· = backslash) :=
  List.rdropWhile_append_rtakeWhile.symm

theorem singleSeparators_collapseSeparators (s : Bytes) :
    SingleSeparators (collapseSeparators s) := by
  have h : SingleSeparators (s.foldl pushCollapsed []) :=
    singleSeparators_foldl List.isChain_nil s
  rw [foldl_pushCollapsed_eq_append] at h
  exact List.IsChain.left_of_append h

theorem getLast?_collapseSeparators (s : Bytes) :
    (collapseSeparators s).getLast? ≠ some backslash := by
  intro h
  have hne : collapseSeparators s ≠ [] := by
    intro hnil
    rw [hnil] at h
    cases h
  rw [List.getLast?_eq_getLast_of_ne_nil hne] at h
  exact List.rdropWhile_last_not _ _ hne (decide_eq_true (Option.some.inj h))

theorem collapseSeparators_eq_self_iff {s : Bytes} :
    collapseSeparators s = s ↔ SingleSeparators s ∧ s.getLast? ≠ some backslash := by
  constructor
  · intro h
    rw [← h]
    exact ⟨singleSeparators_collapseSeparators s, getLast?_collapseSeparators s⟩
  · rintro ⟨hchain, hlast⟩
    rw [collapseSeparators, foldl_pushCollapsed_eq (by simpa using hchain), List.nil_append]
    refine List.rdropWhile_eq_self_iff.2 fun hne h => hlast ?_
    rw [List.getLast?_eq_getLast_of_ne_nil hne]
    simpa using h

@[simp] theorem collapseSeparators_collapseSeparators (s : Bytes) :
    collapseSeparators (collapseSeparators s) = collapseSeparators s :=
  collapseSeparators_eq_self_iff.2
    ⟨singleSeparators_collapseSeparators s, getLast?_collapseSeparators s⟩

theorem mem_of_mem_collapseSeparators {c : UInt8} {s : Bytes} (h : c ∈ collapseSeparators s) :
    c ∈ s := by
  have hfold : ∀ out : Bytes, c ∈ s.foldl pushCollapsed out → c ∈ out ∨ c ∈ s := by
    clear h
    induction s with
    | nil => exact fun out h => .inl h
    | cons d s ih =>
      intro out h
      rcases ih _ h with h | h
      · unfold pushCollapsed at h
        split_ifs at h
        · exact .inl h
        · exact (List.mem_append.1 h).imp_right fun h => by simp_all
      · exact .inr (List.mem_cons_of_mem d h)
  refine (hfold [] ?_).resolve_left List.not_mem_nil
  rw [foldl_pushCollapsed_eq_append]
  exact List.mem_append_left _ h

theorem lowerAscii_collapseSeparators (s : Bytes) :
    lowerAscii (collapseSeparators s) = collapseSeparators (lowerAscii s) := by
  have hfold : ∀ out : Bytes, (lowerAscii s).foldl pushCollapsed (lowerAscii out) =
      lowerAscii (s.foldl pushCollapsed out) := by
    induction s with
    | nil => exact fun out => rfl
    | cons c s ih =>
      intro out
      have hpush : pushCollapsed (lowerAscii out) (lowerByte c) =
          lowerAscii (pushCollapsed out c) := by
        have hlast : (lowerAscii out).getLast? = some backslash ↔
            out.getLast? = some backslash := by
          simp [lowerAscii, List.getLast?_map, lowerByte_eq_backslash]
        simp only [pushCollapsed, lowerByte_eq_backslash, hlast]
        split_ifs
        · rfl
        · simp [lowerAscii]
      have hc : lowerAscii (c :: s) = lowerByte c :: lowerAscii s := rfl
      rw [hc, List.foldl_cons, List.foldl_cons, hpush, ih]
  have hp : ((fun c => decide (c = backslash)) ∘ lowerByte) = fun c => decide (c = backslash) := by
    funext c
    simp [lowerByte_eq_backslash]
  have hnil : (lowerAscii s).foldl pushCollapsed [] = lowerAscii (s.foldl pushCollapsed []) :=
    hfold []
  rw [collapseSeparators, collapseSeparators, hnil, List.rdropWhile, List.rdropWhile, lowerAscii,
    lowerAscii, ← List.map_reverse, List.dropWhile_map, hp, List.map_reverse]

/-! ### Roots -/

theorem rootOf_append_of_mem {s t : Bytes} (h : backslash ∈ s) : rootOf (s ++ t) = rootOf s :=
  takeWhile_ne_append_of_mem h

theorem rootOf_append_separators {s t : Bytes} (h : ∀ c, t.head? = some c → c = backslash) :
    rootOf (s ++ t) = rootOf s := by
  by_cases hs : backslash ∈ s
  · exact rootOf_append_of_mem hs
  · have hall : ∀ c ∈ s, decide (c ≠ backslash) = true := by
      intro c hc
      simp only [ne_eq, decide_not, Bool.not_eq_eq_eq_not, Bool.not_true, decide_eq_false_iff_not]
      rintro rfl
      exact hs hc
    have ht : t.takeWhile (· ≠ backslash) = [] := by
      cases t with
      | nil => rfl
      | cons c t => simp [h c rfl]
    rw [rootOf, List.takeWhile_append_of_pos hall, ht, List.append_nil, rootOf,
      takeWhile_ne_eq_self hs]

theorem rootOf_collapseSeparators (s : Bytes) : rootOf (collapseSeparators s) = rootOf s := by
  have hfold : ∀ out : Bytes, rootOf (s.foldl pushCollapsed out) = rootOf (out ++ s) := by
    induction s with
    | nil => simp
    | cons c s ih =>
      intro out
      rw [List.foldl_cons, ih]
      unfold pushCollapsed
      split_ifs with hc
      · have hmem : backslash ∈ out := List.mem_of_getLast? hc.2
        rw [rootOf_append_of_mem hmem, rootOf_append_of_mem hmem]
      · simp
  rw [← List.nil_append s, ← hfold [], List.nil_append, foldl_pushCollapsed_eq_append]
  refine (rootOf_append_separators fun c hc => ?_).symm
  simpa using List.mem_rtakeWhile_imp (List.mem_of_mem_head? hc)

/-! ### Paths that are stored -/

namespace IsPath

theorem parent {s t : Bytes} (h : IsPath (s ++ backslash :: t)) : IsPath s where
  collapsed := by
    obtain ⟨hchain, -⟩ := collapseSeparators_eq_self_iff.1 h.collapsed
    refine collapseSeparators_eq_self_iff.2 ⟨List.IsChain.left_of_append hchain, fun hlast => ?_⟩
    exact (List.isChain_append.1 hchain).2.2 _ hlast backslash (by simp) ⟨rfl, rfl⟩
  root := by
    rw [← rootOf_append_separators (t := backslash :: t) (by simp)]
    exact h.root
  nul hn := h.nul (List.mem_append_left _ hn)

theorem child {w sub : Bytes} (h : IsPath w) (hsub : 0 ∉ sub) :
    IsPath (collapseSeparators (w ++ backslash :: sub)) where
  collapsed := collapseSeparators_collapseSeparators _
  root := by
    rw [rootOf_collapseSeparators, rootOf_append_separators (by simp)]
    exact h.root
  nul hn := by
    rcases List.mem_append.1 (mem_of_mem_collapseSeparators hn) with hn | hn
    · exact h.nul hn
    · rcases List.mem_cons.1 hn with hn | hn
      · cases hn
      · exact hsub hn

theorem of_section {w : Bytes} (hroot : lowerAscii (rootOf w) ∈ roots) (hw : 0 ∉ w) :
    IsPath (collapseSeparators w) where
  collapsed := collapseSeparators_collapseSeparators _
  root := by rwa [rootOf_collapseSeparators]
  nul hn := hw (mem_of_mem_collapseSeparators hn)

theorem ne_nil {w : Bytes} (h : IsPath w) : w ≠ [] := by
  rintro rfl
  exact absurd h.root (by decide)

theorem of_mem_roots {root : Bytes} (h : root ∈ roots) : IsPath root := by
  have hall : ∀ root ∈ roots, collapseSeparators root = root ∧
      lowerAscii (rootOf root) ∈ roots ∧ 0 ∉ root := by
    decide +kernel
  exact ⟨(hall root h).1, (hall root h).2.1, (hall root h).2.2⟩

end IsPath

end Registry

end Swinx
