import Swinx.Data.CodePageCalls
import Swinx.Shlwapi.Canonicalize

/-!
# Full path names

`PathCanonicalizeA` converts its path to wide characters and the result back, with buffers of
`MAX_PATH` units.  `GetFullPathName` puts the name into the caller's buffer, behind the current
directory if it is relative, and canonicalizes it in a buffer of `MAX_PATH` units of its own.

What stands in memory behind a path is not known.  `wchar_t` has four bytes; `lpFilePart` is `NULL`.

* `forall_right_iff` — a path and the directories on its way are resolved if it is straight.
* `insideW_iff`, `insideA_iff` — when `GetFullPathName` stays in its buffers.
* `canonicalize_iff` — all this together.
-/

namespace Swinx

namespace Shlwapi

namespace Canonicalize

open Components Uniconv

theorem zero_notMem_copyRoot {mem : List ℕ} (h : mem.head?.all (· == 0) = false) :
    0 ∉ (copyRoot mem).1 := by
  cases mem with
  | nil => cases h
  | cons u src =>
    rw [List.head?_cons, Option.all_some, beq_eq_false_iff_ne] at h
    have hroot : 0 ∉ [u, colon, slash] := by
      simp only [List.mem_cons, List.not_mem_nil, or_false, not_or]
      exact ⟨h.symm, by decide, by decide⟩
    rw [copyRoot]
    split_ifs
    · exact fun h0 => by cases List.mem_singleton.1 h0
    · exact hroot
    · exact fun h0 => hroot (by simp only [List.mem_cons] at h0 ⊢; tauto)
    · exact List.not_mem_nil

theorem zero_notMem_finish {t : List ℕ} (h : 0 ∉ t) : 0 ∉ finish t := by
  unfold finish
  split_ifs
  · intro h0
    rcases List.mem_append.1 h0 with h0 | h0
    · exact h h0
    · cases List.mem_singleton.1 h0
  · exact h

theorem zero_notMem_canonicalize (mem : List ℕ) : 0 ∉ (PathCanonicalizeW mem).text := by
  unfold PathCanonicalizeW
  split_ifs with h
  · decide
  · exact zero_notMem_finish (zero_notMem_scan
      (zero_notMem_copyRoot (Bool.eq_false_iff.2 h)) _)

/-- What a call leaves in the buffer of the caller, and the places of the buffers of `MAX_PATH`
units that are written. -/
structure Narrow where
  ret : Bool
  text : List UInt8
  writes : List ℕ
  temporaries : List ℕ
  deriving DecidableEq, Repr

/-- `MultiByteToWideChar(CP_UTF8, 0, path, -1, pathW, ARRAYSIZE(pathW))`; `past` stands behind the
terminator. -/
def converted (past : UInt8) (path : List UInt8) : Called ℕ :=
  multiByteToWideChar .utf32 past false (path ++ [0]) (some MAX_PATH)

/-- `PathCanonicalizeA`; `behind` stands in memory behind the units that are converted. -/
def PathCanonicalizeA (past : UInt8) (behind : List ℕ) (path : List UInt8) : Narrow :=
  let len := converted past path
  if len.ret = 0 then
    { ret := false
      text := []
      writes := [0]
      temporaries := len.writes.map Prod.fst }
  else
    let pathW := len.writes.map Prod.snd ++ behind
    let e := PathCanonicalizeW pathW
    let out := CodePage.toUtf8Call .utf32 0 (.string e.text (zero_notMem_canonicalize pathW))
      (some MAX_PATH)
    { ret := e.ret
      text := (out.writes.map Prod.snd).takeWhile (· ≠ 0)
      writes := 0 :: out.writes.map Prod.fst
      temporaries := len.writes.map Prod.fst ++ e.writes }

section

variable {α : Type} (A : Alphabet α)

/-- `PathIsRelative` -/
def PathIsRelative : List α → Bool
  | [] => true
  | u :: path => !A.isSep u && !path.head?.any A.isColon

variable [Zero α] [DecidableEq α]

/-- `strcat_s` behind the string in `buffer`, after the places `written`. -/
def catName (buffer name : List α) (n : ℕ) (written : List ℕ) : Option (List α) × List ℕ :=
  let dir := buffer.takeWhile (· ≠ 0)
  if dir.length + name.length ≥ n then (none, written)
  else (some (dir ++ name), written ++ List.range' dir.length (name.length + 1))

/-- **The name in the buffer of the caller**, and the places of it that are written.
`GetCurrentDirectory` tells `extra` more than the length of `cwd`, and `sep` is put behind it. -/
def fullName (extra : ℕ) (sep : α) (cwd : Option (List α)) (name : List α) (n : ℕ) :
    Option (List α) × List ℕ :=
  if PathIsRelative A name then
    match cwd with
    | none => (none, [])
    | some dir =>
      if n ≤ dir.length then (none, [])
      else
        let dwRet := dir.length + extra
        let written := List.range (dir.length + 1)
        if dwRet = 0 ∨ dwRet ≥ n then (none, written)
        else if (dir ++ [0])[dwRet - 1]?.any A.isSep then catName (dir ++ [0]) name n written
        else if dwRet + 1 ≥ n then (none, written)
        else catName ((dir ++ [0]).take dwRet ++ [sep, 0]) name n (written ++ [dwRet, dwRet + 1])
  else if name.length ≥ n then (none, [])
  else (some name, List.range (name.length + 1))

/-- What `GetFullPathName` does: its result and the text of this length (nothing, if it fails), the
places of the buffer of the caller that are written, and those of the buffers of `MAX_PATH`
units. -/
structure FullName (α : Type) where
  ret : ℕ
  text : List α
  writes : List ℕ
  temporaries : List ℕ
  deriving DecidableEq, Repr

/-- `strcpy_s` -/
def copyBack (n : ℕ) (text : List α) : List α × List ℕ :=
  if text.length ≥ n then ([], [0]) else (text, List.range (text.length + 1))

end

/-- `GetFullPathNameW`, with `behind` in memory behind the name. -/
def GetFullPathNameW (cwd : Option (List ℕ)) (name : List ℕ) (n : ℕ) (behind : List ℕ) :
    FullName ℕ :=
  let full := fullName units 1 0x5C cwd name n
  match full.1 with
  | none => ⟨0, [], full.2, []⟩
  | some path =>
    let e := PathCanonicalizeW (path ++ 0 :: behind)
    let back := copyBack n e.text
    ⟨back.1.length, back.1, full.2 ++ back.2, e.writes⟩

/-- `GetFullPathNameA`, with `past` behind the name and `behind` behind the converted name. -/
def GetFullPathNameA (cwd : Option (List UInt8)) (name : List UInt8) (n : ℕ) (past : UInt8)
    (behind : List ℕ) : FullName UInt8 :=
  let full := fullName bytes 0 0x2F cwd name n
  match full.1 with
  | none => ⟨0, [], full.2, []⟩
  | some path =>
    let e := PathCanonicalizeA past behind path
    if e.ret then
      let back := copyBack n e.text
      ⟨back.1.length, back.1, full.2 ++ back.2, e.temporaries ++ e.writes⟩
    else ⟨0, [], full.2, e.temporaries ++ e.writes⟩

/-- **All writes stay in the buffers.** -/
structure Inside {α : Type} (n : ℕ) (r : FullName α) : Prop where
  buffer : ∀ i ∈ r.writes, i < n
  temporaries : ∀ i ∈ r.temporaries, i < MAX_PATH

/-- **The scan ends in the memory**, whatever is behind it. -/
def EndsIn (mem : List ℕ) : Prop :=
  ∀ behind, PathCanonicalizeW (mem ++ behind) = PathCanonicalizeW mem

/-- The canonical path of a memory has place in `MAX_PATH` units, at any time. -/
def Fits (mem : List ℕ) : Prop := ∀ i ∈ (PathCanonicalizeW mem).writes, i < MAX_PATH

variable {mem : List ℕ}

theorem canonicalize_empty (h : mem.head?.all (· == 0) = true) :
    PathCanonicalizeW mem = ⟨true, [slash], [0, 0, 1]⟩ := if_pos h

theorem canonicalize_eq (h : mem.head?.all (· == 0) = false) :
    PathCanonicalizeW mem =
      { ret := true
        text := finish (scan (copyRoot mem).1 (copyRoot mem).2).text
        writes := 0 :: List.range (copyRoot mem).1.length ++
          (scan (copyRoot mem).1 (copyRoot mem).2).writes ++
          List.range' (scan (copyRoot mem).1 (copyRoot mem).2).text.length
            ((finish (scan (copyRoot mem).1 (copyRoot mem).2).text).length + 1 -
              (scan (copyRoot mem).1 (copyRoot mem).2).text.length) } :=
  if_neg (by rw [h]; decide)

theorem copyRoot_append (h : mem.head?.all (· == 0) = false) (hmem : 0 ∈ mem ∨ 3 ≤ mem.length)
    (behind : List ℕ) :
    copyRoot (mem ++ behind) = ((copyRoot mem).1, (copyRoot mem).2 ++ behind) := by
  rcases mem with _ | ⟨u, _ | ⟨v, _ | ⟨w, mem⟩⟩⟩
  · cases h
  · rw [List.head?_cons, Option.all_some, beq_eq_false_iff_ne] at h
    rcases hmem with hmem | hmem
    · exact absurd (List.mem_singleton.1 hmem).symm h
    · simp at hmem
  · rw [List.head?_cons, Option.all_some, beq_eq_false_iff_ne] at h
    have hv : v = 0 := by
      rcases hmem with hmem | hmem
      · rcases List.mem_pair.1 hmem with h0 | h0
        · exact absurd h0.symm h
        · exact h0.symm
      · simp at hmem
    subst hv
    rw [List.cons_append, copyRoot, copyRoot]
    by_cases hu : units.isSep u = true
    · rw [if_pos hu, if_pos hu]
    · rw [if_neg hu, if_neg hu]
      rfl
  · rw [List.cons_append, copyRoot, copyRoot]
    simp only [List.cons_append, List.head?_cons, Option.any_some, List.drop_succ_cons,
      List.drop_zero]
    split_ifs <;> rfl

theorem lt_of_any {q : ℕ → Bool} {l : List ℕ} {n : ℕ} (h : (l.drop n).head?.any q = true) :
    n < l.length := by
  by_contra hle
  rw [List.drop_eq_nil_of_le (not_lt.1 hle)] at h
  cases h

theorem length_copyRoot (mem : List ℕ) :
    (copyRoot mem).1.length + (copyRoot mem).2.length = mem.length := by
  cases mem with
  | nil => rfl
  | cons u src =>
    rw [copyRoot]
    split_ifs with h1 h2 h3
    · simp only [List.length_cons, List.length_nil]
      omega
    · have := lt_of_any h3
      simp only [List.length_cons, List.length_nil, List.length_drop]
      omega
    · have := lt_of_any (n := 0) h2
      simp only [List.length_cons, List.length_nil, List.length_drop]
      omega
    · simp only [List.length_cons, List.length_nil]
      omega

theorem fits_of_stopsIn (h : mem.head?.all (· == 0) = false) (hlen : mem.length ≤ MAX_PATH)
    (hstop : StopsIn (copyRoot mem).1 (copyRoot mem).2) : Fits mem := by
  have hroot := length_copyRoot mem
  have hlt := hstop.1
  have hscan := (length_scan_le (copyRoot mem).1 (copyRoot mem).2).2
  have hfinish : (finish (scan (copyRoot mem).1 (copyRoot mem).2).text).length < MAX_PATH := by
    unfold finish
    unfold MAX_PATH at hlen ⊢
    split_ifs with hnaked
    · rw [List.length_append, hnaked.1]
      decide
    · omega
  unfold Fits
  rw [canonicalize_eq h]
  intro i hi
  dsimp only at hi
  unfold MAX_PATH at hlen hfinish ⊢
  rcases List.mem_append.1 hi with hi | hi
  · rcases List.mem_append.1 hi with hi | hi
    · rcases List.mem_cons.1 hi with rfl | hi
      · decide
      · have := List.mem_range.1 hi
        omega
    · have := hscan i hi
      omega
  · have := List.mem_range'_1.1 hi
    omega

/-- Letters behind the memory. -/
def letters (n : ℕ) : List ℕ := List.replicate n 0x61

theorem notMem_letters {u : ℕ} (h : u ≠ 0x61) (n : ℕ) : u ∉ letters n :=
  fun hmem => h (List.eq_of_mem_replicate hmem)

theorem scan_letters (dst : List ℕ) (n : ℕ) : (scan dst (letters n)).text = dst ++ letters n := by
  induction n generalizing dst with
  | zero => exact (List.append_nil dst).symm
  | succ n ih =>
    rw [letters, List.replicate_succ, scan_plain (by decide) rfl (by decide), after_text, ← letters,
      ih, List.append_assoc, List.singleton_append]

theorem other_letters (n : ℕ) : Other (letters n) := by
  intro u hu
  have := List.mem_of_head? hu
  rw [List.eq_of_mem_replicate this]
  exact ⟨rfl, rfl⟩

theorem le_length_scan {dst src : List ℕ} (h : ¬StopsIn dst src) (n : ℕ) :
    n ≤ (scan dst (src ++ letters n)).text.length := by
  rcases (scan_append dst src).resolve_left h with hgo | ⟨-, hskip⟩
  · rw [hgo _ (other_letters n), after_text, scan_letters, List.length_append, letters,
      List.length_replicate]
    exact Nat.le_add_left _ _
  · have hdrop : (letters n).drop 1 = letters (n - 1) := by
      rw [letters, List.drop_replicate]
      rfl
    rw [hskip _ (other_letters n), after_text, hdrop, scan_letters, List.length_append, letters,
      List.length_replicate, List.length_singleton]
    omega

theorem length_le_finish (t : List ℕ) : t.length ≤ (finish t).length := by
  unfold finish
  split_ifs
  · exact List.length_append ▸ Nat.le_add_right _ _
  · exact le_rfl

theorem terminator_mem_writes (h : mem.head?.all (· == 0) = false) :
    (scan (copyRoot mem).1 (copyRoot mem).2).text.length ≤ (PathCanonicalizeW mem).text.length ∧
      (PathCanonicalizeW mem).text.length ∈ (PathCanonicalizeW mem).writes := by
  have hle := length_le_finish (scan (copyRoot mem).1 (copyRoot mem).2).text
  rw [canonicalize_eq h]
  refine ⟨hle, List.mem_append_right _ (List.mem_range'_1.2 ⟨hle, ?_⟩)⟩
  dsimp only
  omega

theorem le_length_canonicalize (h : mem.head?.all (· == 0) = false)
    (hmem : 0 ∈ mem ∨ 3 ≤ mem.length) (hgo : ¬StopsIn (copyRoot mem).1 (copyRoot mem).2) (n : ℕ) :
    n ≤ (PathCanonicalizeW (mem ++ letters n)).text.length ∧
      (PathCanonicalizeW (mem ++ letters n)).text.length ∈
        (PathCanonicalizeW (mem ++ letters n)).writes := by
  have hhead : (mem ++ letters n).head?.all (· == 0) = false := by
    cases mem with
    | nil => cases h
    | cons u mem => exact h
  obtain ⟨hle, hwrite⟩ := terminator_mem_writes hhead
  rw [copyRoot_append h hmem] at hle
  exact ⟨(le_length_scan hgo n).trans hle, hwrite⟩

/-- **When the scan ends in a memory.** -/
theorem endsIn_iff (h : mem.head?.all (· == 0) = false) (hmem : 0 ∈ mem ∨ 3 ≤ mem.length) :
    EndsIn mem ↔ StopsIn (copyRoot mem).1 (copyRoot mem).2 := by
  constructor
  · intro hend
    by_contra hgo
    have hle := (le_length_canonicalize h hmem hgo (mem.length + 2)).1
    have hscan := (length_scan_le (copyRoot mem).1 (copyRoot mem).2).1
    have hfin := length_finish_le (scan (copyRoot mem).1 (copyRoot mem).2).text
    have hroot := length_copyRoot mem
    rw [hend, canonicalize_eq h] at hle
    dsimp only at hle
    omega
  · intro hstop behind
    have hhead : (mem ++ behind).head?.all (· == 0) = false := by
      cases mem with
      | nil => cases h
      | cons u mem => exact h
    rw [canonicalize_eq hhead, canonicalize_eq h, copyRoot_append h hmem, hstop.2]

/-- **When the canonical path of a memory has place**, whatever is behind it. -/
theorem forall_fits_iff (hmem : 0 ∈ mem ∨ 3 ≤ mem.length) :
    (∀ behind, Fits (mem ++ behind)) ↔ EndsIn mem ∧ Fits mem := by
  constructor
  · intro hfits
    have hmemfits := hfits []
    rw [List.append_nil] at hmemfits
    refine ⟨?_, hmemfits⟩
    cases h : mem.head?.all (· == 0) with
    | true =>
      intro behind
      rw [canonicalize_empty h, canonicalize_empty]
      cases mem with
      | nil => simp at hmem
      | cons u mem => exact h
    | false =>
      rw [endsIn_iff h hmem]
      by_contra hgo
      obtain ⟨hle, hwrite⟩ := le_length_canonicalize h hmem hgo MAX_PATH
      exact absurd (hfits _ _ hwrite) (not_lt.2 hle)
  · rintro ⟨hend, hfits⟩ behind
    unfold Fits
    rw [hend]
    exact hfits

theorem fits_of_endsIn (hmem : 0 ∈ mem ∨ 3 ≤ mem.length) (hlen : mem.length ≤ MAX_PATH)
    (hend : EndsIn mem) : Fits mem := by
  cases h : mem.head?.all (· == 0) with
  | true =>
    unfold Fits
    rw [canonicalize_empty h]
    decide
  | false => exact fits_of_stopsIn h hlen ((endsIn_iff h hmem).1 hend)

/-! ### The name in the buffer of the caller -/

section

variable {α : Type} {A : Alphabet α} [Zero α] [DecidableEq α] {cwd : Option (List α)}
  {name path : List α} {n : ℕ}

/-- The name is put into the buffer if it has place. -/
def Placed (n : ℕ) (r : Option (List α) × List ℕ) : Prop :=
  (∀ i ∈ r.2, i < n) ∧ ∀ path, r.1 = some path → path.length < n ∧ 0 ∉ path

theorem placed_catName (hname : 0 ∉ name) (buffer : List α) {written : List ℕ}
    (h : ∀ i ∈ written, i < n) : Placed n (catName buffer name n written) := by
  unfold catName
  dsimp only
  split_ifs with hlong
  · exact ⟨h, fun path hpath => by cases hpath⟩
  · refine ⟨fun i hi => ?_, ?_⟩
    · rcases List.mem_append.1 hi with hi | hi
      · exact h i hi
      · have := List.mem_range'_1.1 hi
        omega
    · rintro path ⟨⟩
      rw [List.length_append]
      refine ⟨by omega, fun h0 => ?_⟩
      rcases List.mem_append.1 h0 with h0 | h0
      · have hne := List.mem_takeWhile_imp h0
        exact absurd rfl (of_decide_eq_true hne)
      · exact hname h0

/-- **The buffer of the caller is not left.** -/
theorem placed_fullName (hname : 0 ∉ name) (extra : ℕ) (sep : α) (cwd : Option (List α)) (n : ℕ) :
    Placed n (fullName A extra sep cwd name n) := by
  have hnone : Placed n ((none : Option (List α)), ([] : List ℕ)) :=
    ⟨fun i hi => absurd hi List.not_mem_nil, fun path hpath => by cases hpath⟩
  unfold fullName
  split_ifs with hrel hlong
  · cases cwd with
    | none => exact hnone
    | some dir =>
      dsimp only
      split_ifs with hfail hdir hsep hroom
      · exact hnone
      · refine ⟨fun i hi => ?_, fun path hpath => by cases hpath⟩
        have := List.mem_range.1 hi
        omega
      · refine placed_catName hname _ fun i hi => ?_
        have := List.mem_range.1 hi
        omega
      · refine ⟨fun i hi => ?_, fun path hpath => by cases hpath⟩
        have := List.mem_range.1 hi
        omega
      · refine placed_catName hname _ fun i hi => ?_
        rcases List.mem_append.1 hi with hi | hi
        · have := List.mem_range.1 hi
          omega
        · rcases List.mem_pair.1 hi with rfl | rfl <;> omega
  · exact hnone
  · refine ⟨fun i hi => ?_, ?_⟩
    · have := List.mem_range.1 hi
      omega
    · rintro path ⟨⟩
      exact ⟨by omega, hname⟩

end

theorem copyBack_lt {α : Type} {n : ℕ} (h : 0 < n) (text : List α) :
    ∀ i ∈ (copyBack n text).2, i < n := by
  unfold copyBack
  split_ifs with hlong
  · intro i hi
    rwa [List.mem_singleton.1 hi]
  · intro i hi
    have := List.mem_range.1 hi
    omega

theorem append_zero (path behind : List ℕ) : path ++ 0 :: behind = path ++ [0] ++ behind := by
  rw [List.append_assoc, List.singleton_append]

/-- **When `GetFullPathNameW` stays in its buffers.** -/
theorem insideW_iff {cwd : Option (List ℕ)} {name : List ℕ} {n : ℕ} (hname : 0 ∉ name) :
    (∀ behind, Inside n (GetFullPathNameW cwd name n behind)) ↔
      ∀ path, (fullName units 1 0x5C cwd name n).1 = some path →
        EndsIn (path ++ [0]) ∧ Fits (path ++ [0]) := by
  obtain ⟨hwrites, hpath⟩ := placed_fullName (A := units) hname 1 0x5C cwd n
  cases h : (fullName units 1 0x5C cwd name n).1 with
  | none =>
    have heq : ∀ behind, GetFullPathNameW cwd name n behind =
        ⟨0, [], (fullName units 1 0x5C cwd name n).2, []⟩ := fun behind => by
      simp only [GetFullPathNameW, h]
    refine iff_of_true (fun behind => ?_) fun path hnone => by cases hnone
    rw [heq]
    exact ⟨hwrites, fun i hi => absurd hi List.not_mem_nil⟩
  | some path =>
    have heq : ∀ behind, GetFullPathNameW cwd name n behind =
        ⟨(copyBack n (PathCanonicalizeW (path ++ 0 :: behind)).text).1.length,
          (copyBack n (PathCanonicalizeW (path ++ 0 :: behind)).text).1,
          (fullName units 1 0x5C cwd name n).2 ++
            (copyBack n (PathCanonicalizeW (path ++ 0 :: behind)).text).2,
          (PathCanonicalizeW (path ++ 0 :: behind)).writes⟩ := fun behind => by
      simp only [GetFullPathNameW, h]
    obtain ⟨hlt, -⟩ := hpath path h
    have hfits := forall_fits_iff (.inl (by simp) : 0 ∈ path ++ [0] ∨ 3 ≤ (path ++ [0]).length)
    constructor
    · rintro hinside _ ⟨⟩
      refine hfits.1 fun behind => ?_
      have htmp := (hinside behind).temporaries
      rw [heq, append_zero] at htmp
      exact htmp
    · intro hcond behind
      have htmp := hfits.2 (hcond path rfl) behind
      rw [heq, append_zero]
      refine ⟨fun i hi => ?_, htmp⟩
      rcases List.mem_append.1 hi with hi | hi
      · exact hwrites i hi
      · exact copyBack_lt (by omega) _ i hi

/-! ### The conversions -/

theorem map_snd_writesAt {α : Type} (index : ℕ → ℕ) (us : List α) :
    (writesAt index us).map Prod.snd = us := by
  rw [writesAt, List.map_map]
  exact List.zipIdx_map_fst 0 us

theorem toUTF8Length_le (us : List ℕ) : toUTF8Length .utf32 us ≤ 4 * us.length := by
  change UTF32toUTF8Length us ≤ _
  induction us with
  | nil => exact Nat.zero_le _
  | cons u us ih =>
    unfold UTF32toUTF8Length
    rw [List.length_cons]
    split_ifs <;> omega

theorem toUtf8Call_short (src : CodePage.Source ℕ)
    (hint : toUTF8Length .utf32 src.text + CodePage.nulLength src ≤ INT_MAX)
    (h : ¬toUTF8Length .utf32 src.text + CodePage.nulLength src ≤ MAX_PATH) :
    (CodePage.toUtf8Call .utf32 0 src (some MAX_PATH)).writes = [] := by
  have hret : toInt (toUTF8Length .utf32 src.text) = toUTF8Length .utf32 src.text :=
    toInt_of_le (by omega)
  have hnul : (if src.terminated = true then (1 : ℤ) else 0) = CodePage.nulLength src := by
    unfold CodePage.nulLength
    split_ifs <;> rfl
  simp only [CodePage.toUtf8Call, hret, hnul]
  rw [if_pos (by omega)]
  rfl

theorem writes_toUtf8Call_lt (src : CodePage.Source ℕ) (h : src.text.length ≤ MAX_PATH + 1) :
    ∀ w ∈ (CodePage.toUtf8Call .utf32 0 src (some MAX_PATH)).writes, w.1 < MAX_PATH := by
  have hle := toUTF8Length_le src.text
  have hint : toUTF8Length .utf32 src.text + CodePage.nulLength src ≤ INT_MAX := by
    have hnul : CodePage.nulLength src ≤ 1 := by
      unfold CodePage.nulLength
      split_ifs <;> omega
    unfold INT_MAX
    unfold MAX_PATH at h
    omega
  by_cases hcap : toUTF8Length .utf32 src.text + CodePage.nulLength src ≤ MAX_PATH
  · exact (CodePage.toUtf8Call_result .utf32 0 src hint hcap).1
  · rw [toUtf8Call_short src hint hcap]
    exact fun w hw => absurd hw List.not_mem_nil

/-- **What is converted**: nothing, or all that has place. -/
theorem converted_cases (past : UInt8) (path : List UInt8) :
    ((converted past path).ret = 0 ∧ (converted past path).writes = []) ∨
    ∃ us : List ℕ, us.length ≤ MAX_PATH ∧ (converted past path).ret = toInt us.length ∧
      (converted past path).writes = writesAt id us ++ writesEnd 0 us.length MAX_PATH := by
  unfold converted multiByteToWideChar
  simp only [Bool.false_eq_true, and_false, if_false]
  split_ifs
  · exact .inl ⟨rfl, rfl⟩
  · exact .inr ⟨_, length_UTF32FromUTF8_le past MAX_PATH (path ++ [0]), rfl, rfl⟩

theorem converted_lt (past : UInt8) (path : List UInt8) :
    ∀ i ∈ (converted past path).writes.map Prod.fst, i < MAX_PATH := by
  intro i hi
  obtain ⟨w, hw, rfl⟩ := List.mem_map.1 hi
  rcases converted_cases past path with ⟨-, hwrites⟩ | ⟨us, hlen, -, hwrites⟩
  · rw [hwrites] at hw
    cases hw
  · rw [hwrites] at hw
    exact writes_lt (fun _ _ => rfl) hlen w hw

/-- The memory that is converted has an end, or fills the buffer. -/
theorem converted_mem {past : UInt8} {path : List UInt8} (h : (converted past path).ret ≠ 0) :
    ((converted past path).writes.map Prod.snd).length ≤ MAX_PATH ∧
      (0 ∈ (converted past path).writes.map Prod.snd ∨
        3 ≤ ((converted past path).writes.map Prod.snd).length) := by
  rcases converted_cases past path with ⟨hret, -⟩ | ⟨us, hlen, -, hwrites⟩
  · exact absurd hret h
  rw [hwrites, List.map_append, map_snd_writesAt, writesEnd]
  split_ifs with hroom
  · refine ⟨?_, .inl (by simp)⟩
    rw [List.length_append]
    exact hroom
  · have hfull : us.length = MAX_PATH := by omega
    rw [List.map_nil, List.append_nil, hfull]
    exact ⟨le_rfl, .inr (by decide)⟩

theorem length_canonicalize_le (mem : List ℕ) :
    (PathCanonicalizeW mem).text.length ≤ mem.length + 1 := by
  cases h : mem.head?.all (· == 0) with
  | true =>
    rw [canonicalize_empty h, List.length_singleton]
    exact Nat.le_add_left _ _
  | false =>
    have hfin := length_finish_le (scan (copyRoot mem).1 (copyRoot mem).2).text
    have hscan := (length_scan_le (copyRoot mem).1 (copyRoot mem).2).1
    rw [length_copyRoot] at hscan
    rw [canonicalize_eq h]
    exact hfin.trans (Nat.succ_le_succ hscan)

/-- **When `PathCanonicalizeA` stays in its buffers.** -/
theorem canonicalizeA_inside_iff (past : UInt8) (path : List UInt8) :
    (∀ behind, ∀ i ∈ (PathCanonicalizeA past behind path).temporaries ++
      (PathCanonicalizeA past behind path).writes, i < MAX_PATH) ↔
      (converted past path).ret = 0 ∨ EndsIn ((converted past path).writes.map Prod.snd) := by
  by_cases hret : (converted past path).ret = 0
  · refine iff_of_true (fun behind i hi => ?_) (.inl hret)
    simp only [PathCanonicalizeA, if_pos hret] at hi
    rcases List.mem_append.1 hi with hi | hi
    · exact converted_lt past path i hi
    · rw [List.mem_singleton.1 hi]
      decide
  · obtain ⟨hlen, hmem⟩ := converted_mem hret
    have hfits := forall_fits_iff hmem
    simp only [PathCanonicalizeA, if_neg hret]
    constructor
    · intro h
      refine .inr (hfits.1 fun behind i hi => ?_).1
      exact h behind i (List.mem_append_left _ (List.mem_append_right _ hi))
    · intro h behind i hi
      have hend := h.resolve_left hret
      have hle := length_canonicalize_le ((converted past path).writes.map Prod.snd)
      rcases List.mem_append.1 hi with hi | hi
      · rcases List.mem_append.1 hi with hi | hi
        · exact converted_lt past path i hi
        · exact hfits.2 ⟨hend, fits_of_endsIn hmem hlen hend⟩ behind i hi
      · rcases List.mem_cons.1 hi with rfl | hi
        · decide
        · obtain ⟨w, hw, rfl⟩ := List.mem_map.1 hi
          refine writes_toUtf8Call_lt _ ?_ w hw
          change (PathCanonicalizeW
            ((converted past path).writes.map Prod.snd ++ behind)).text.length ≤ _
          rw [hend]
          exact hle.trans (Nat.succ_le_succ hlen)

/-- **When `GetFullPathNameA` stays in its buffers.** -/
theorem insideA_iff {cwd : Option (List UInt8)} {name : List UInt8} {n : ℕ} (hname : 0 ∉ name) :
    (∀ past behind, Inside n (GetFullPathNameA cwd name n past behind)) ↔
      ∀ path, (fullName bytes 0 0x2F cwd name n).1 = some path → ∀ past,
        (converted past path).ret = 0 ∨ EndsIn ((converted past path).writes.map Prod.snd) := by
  obtain ⟨hwrites, hpath⟩ := placed_fullName (A := bytes) hname 0 0x2F cwd n
  cases h : (fullName bytes 0 0x2F cwd name n).1 with
  | none =>
    have heq : ∀ past behind, GetFullPathNameA cwd name n past behind =
        ⟨0, [], (fullName bytes 0 0x2F cwd name n).2, []⟩ := fun past behind => by
      simp only [GetFullPathNameA, h]
    refine iff_of_true (fun past behind => ?_) fun path hnone => by cases hnone
    rw [heq]
    exact ⟨hwrites, fun i hi => absurd hi List.not_mem_nil⟩
  | some path =>
    obtain ⟨hlt, -⟩ := hpath path h
    have hinside : ∀ past behind, Inside n (GetFullPathNameA cwd name n past behind) ↔
        ∀ i ∈ (PathCanonicalizeA past behind path).temporaries ++
          (PathCanonicalizeA past behind path).writes, i < MAX_PATH := by
      intro past behind
      simp only [GetFullPathNameA, h]
      split_ifs
      · refine ⟨fun hin => hin.temporaries, fun hin => ⟨fun i hi => ?_, hin⟩⟩
        rcases List.mem_append.1 hi with hi | hi
        · exact hwrites i hi
        · exact copyBack_lt (by omega) _ i hi
      · exact ⟨fun hin => hin.temporaries, fun hin => ⟨hwrites, hin⟩⟩
    simp only [hinside, canonicalizeA_inside_iff]
    exact ⟨fun hall => by rintro _ ⟨⟩; exact hall, fun hall => hall path rfl⟩

/-- **An absolute path** of fewer than `MAX_PATH` units. -/
structure AbsolutePath where
  text : List ℕ
  zero_notMem : 0 ∉ text
  absolute : Absolute text
  short : text.length < MAX_PATH

/-- **A path is resolved**: by both forms, for good, and without becoming much longer. -/
structure Right (p : List ℕ) : Prop where
  resolves : ∀ behind, (PathCanonicalizeW (p ++ 0 :: behind)).ret = true ∧
    (PathCanonicalizeW (p ++ 0 :: behind)).text = resolved p
  short : ∀ behind, (PathCanonicalizeW (p ++ 0 :: behind)).text.length ≤ p.length + 2
  again : ∀ behind behind',
    (PathCanonicalizeW ((PathCanonicalizeW (p ++ 0 :: behind)).text ++ 0 :: behind')).text =
      (PathCanonicalizeW (p ++ 0 :: behind)).text
  narrow : (∀ c ∈ p, Scalar c) → ∀ past behind behind',
    (PathCanonicalizeA past behind' (utf8Text p)).ret = true ∧
      (PathCanonicalizeA past behind' (utf8Text p)).text =
        utf8Text (PathCanonicalizeW (p ++ 0 :: behind)).text

theorem text_utf32 (cs : List ℕ) : Wide.utf32.text cs = cs := List.flatMap_singleton' cs

theorem length_utf8Text {cs : List ℕ} (hcs : ∀ c ∈ cs, Scalar c) :
    (utf8Text cs).length = toUTF8Length .utf32 cs := by
  rw [← CodePage.toUTF8Length_text hcs .utf32, text_utf32]

/-- **A path is converted** with its terminator. -/
theorem converted_text (past : UInt8) {cs : List ℕ} (hcs : ∀ c ∈ cs, Scalar c)
    (hlen : cs.length < MAX_PATH) :
    (converted past (utf8Text cs)).ret ≠ 0 ∧
      ∃ more, (converted past (utf8Text cs)).writes.map Prod.snd = cs ++ 0 :: more := by
  have hcs' := scalar_concat_zero hcs
  have hbytes : utf8Text cs ++ [0] = utf8Text (cs ++ [0]) := (utf8Text_concat_zero cs).symm
  have hunits : towstringLength .utf32 (utf8Text (cs ++ [0])) = cs.length + 1 := by
    rw [towstringLength_text .utf32 hcs', text_utf32, List.length_append, List.length_singleton]
  have hint : (utf8Text (cs ++ [0])).length ≤ INT_MAX := by
    have hle := toUTF8Length_le (cs ++ [0])
    rw [← length_utf8Text hcs', List.length_append, List.length_singleton] at hle
    unfold MAX_PATH at hlen
    unfold INT_MAX
    omega
  obtain ⟨n, hn⟩ := Nat.le.dest (Nat.succ_le_of_lt hlen)
  have hfrom : fromUTF8 .utf32 past MAX_PATH (utf8Text (cs ++ [0])) = cs ++ [0] := by
    have h := fromUTF8_text .utf32 past hcs' n
    rw [text_utf32, List.length_append, List.length_singleton] at h
    rw [← hn]
    exact h
  unfold converted
  rw [hbytes, mb_some .utf32 past hint (by rw [hunits]; exact hlen), hfrom]
  refine ⟨?_, ?_⟩
  · rw [List.length_append, List.length_singleton,
      toInt_of_le (by unfold MAX_PATH at hlen; unfold INT_MAX; omega)]
    exact Int.natCast_ne_zero.2 (Nat.succ_ne_zero cs.length)
  · refine ⟨(writesEnd 0 (cs ++ [0]).length MAX_PATH).map Prod.snd, ?_⟩
    rw [List.map_append, map_snd_writesAt, List.append_assoc, List.singleton_append]

theorem toUtf8Call_text (src : CodePage.Source ℕ) (hterm : src.terminated = true)
    (hscalar : ∀ c ∈ src.text, Scalar c ∧ c ≠ 0) (hlen : src.text.length ≤ MAX_PATH + 1) :
    ((CodePage.toUtf8Call .utf32 0 src (some MAX_PATH)).writes.map Prod.snd).takeWhile
        (· ≠ 0) =
      if (utf8Text src.text).length < MAX_PATH then utf8Text src.text else [] := by
  have hcs : ∀ c ∈ src.text, Scalar c := fun c hc => (hscalar c hc).1
  have hbytes : toUTF8 .utf32 0 src.text = utf8Text src.text := by
    have h := toUTF8_text .utf32 0 hcs
    rwa [text_utf32] at h
  have hnul : CodePage.nulLength src = 1 := if_pos hterm
  have hle := toUTF8Length_le src.text
  have hint : toUTF8Length .utf32 src.text + CodePage.nulLength src ≤ INT_MAX := by
    unfold MAX_PATH at hlen
    unfold INT_MAX
    omega
  have hret : toInt (toUTF8Length .utf32 src.text) = toUTF8Length .utf32 src.text :=
    toInt_of_le (by omega)
  rw [length_utf8Text hcs]
  split_ifs with hroom
  · have hcap : toInt (toUTF8Length .utf32 src.text) + CodePage.nulLength src ≤ MAX_PATH := by
      rw [hret, hnul]
      exact_mod_cast hroom
    have hmod : toUTF8Length .utf32 src.text % 4294967296 = toUTF8Length .utf32 src.text :=
      Nat.mod_eq_of_lt (by unfold MAX_PATH at hroom; omega)
    rw [CodePage.toUtf8Call_some .utf32 0 src hcap, List.map_append, map_snd_writesAt, hbytes, hmod,
      writesEnd, if_pos hroom]
    have hzero := zero_notMem_utf8Text hscalar
    rw [List.takeWhile_append_of_pos]
    · rw [List.map_singleton, List.takeWhile_cons_of_neg (by simp), List.append_nil]
    · intro b hb
      exact decide_eq_true fun h0 => hzero (h0 ▸ hb)
  · rw [toUtf8Call_short src hint (by omega)]
    rfl

/-- **The narrow form of a straight path.** -/
theorem narrow_straight {p : List ℕ} (h : Absolute p) (hzero : 0 ∉ p) (hlen : p.length < MAX_PATH)
    (hp : StraightPath p) (hcs : ∀ c ∈ p, Scalar c) (past : UInt8) (behind : List ℕ) :
    (PathCanonicalizeA past behind (utf8Text p)).ret = true ∧
      (PathCanonicalizeA past behind (utf8Text p)).text =
        if (utf8Text (resolved p)).length < MAX_PATH then utf8Text (resolved p) else [] := by
  obtain ⟨hret, more, hmore⟩ := converted_text past hcs hlen
  have htext : ∀ mem, mem = p ++ 0 :: (more ++ behind) →
      (PathCanonicalizeW mem).text = resolved p :=
    fun mem hmem => hmem ▸ canonicalize_straight h hzero hp (more ++ behind)
  have hmem : (converted past (utf8Text p)).writes.map Prod.snd ++ behind =
      p ++ 0 :: (more ++ behind) := by
    rw [hmore, List.append_assoc, List.cons_append]
  have hscalar : ∀ c ∈ resolved p, Scalar c ∧ c ≠ 0 := by
    intro c hc
    refine ⟨?_, fun h0 => zero_notMem_resolved h hzero (h0 ▸ hc)⟩
    rcases mem_resolved h hc with hc | rfl | rfl
    · exact hcs c hc
    · exact .inl (by decide)
    · exact .inl (by decide)
  have hle := length_resolved_le h
  simp only [PathCanonicalizeA, if_neg hret]
  refine ⟨?_, ?_⟩
  · unfold PathCanonicalizeW
    split_ifs <;> rfl
  · have hres := htext _ hmem
    rw [toUtf8Call_text _ rfl]
    · change (if (utf8Text (PathCanonicalizeW _).text).length < MAX_PATH then
        utf8Text (PathCanonicalizeW _).text else []) = _
      rw [hres]
    · change ∀ c ∈ (PathCanonicalizeW _).text, Scalar c ∧ c ≠ 0
      rw [hres]
      exact hscalar
    · change (PathCanonicalizeW _).text.length ≤ MAX_PATH + 1
      rw [hres]
      omega

theorem canonicalize_ret (mem : List ℕ) : (PathCanonicalizeW mem).ret = true := by
  unfold PathCanonicalizeW
  split_ifs <;> rfl

/-- **A straight path is resolved**, by both forms and for good. -/
theorem right_straight {p : List ℕ} (h : Absolute p) (hzero : 0 ∉ p) (hlen : p.length < MAX_PATH)
    (hp : StraightPath p)
    (hbytes : (∀ c ∈ p, Scalar c) → (utf8Text (resolved p)).length < MAX_PATH) : Right p where
  resolves behind := ⟨canonicalize_ret _, canonicalize_straight h hzero hp behind⟩
  short behind := by
    have := length_resolved_le h
    rw [canonicalize_straight h hzero hp]
    omega
  again behind behind' := by
    obtain ⟨ha, hstraight, heq⟩ := resolved_resolved h hzero hp
    rw [canonicalize_straight h hzero hp,
      canonicalize_straight ha (zero_notMem_resolved h hzero) hstraight, heq]
  narrow hcs past behind behind' := by
    obtain ⟨hret, htext⟩ := narrow_straight h hzero hlen hp hcs past behind'
    rw [if_pos (hbytes hcs)] at htext
    rw [canonicalize_straight h hzero hp]
    exact ⟨hret, htext⟩

/-- **When a path and the directories on its way are resolved.** -/
theorem forall_right_iff (p : AbsolutePath) :
    (∀ q, OnTheWay p.text q → Right q) ↔ StraightPath p.text ∧
      ∀ q, OnTheWay p.text q → (∀ c ∈ q, Scalar c) →
        (utf8Text (resolved q)).length < MAX_PATH := by
  have hway : ∀ q, OnTheWay p.text q → Absolute q ∧ 0 ∉ q ∧ q.length < MAX_PATH := fun q hq =>
    ⟨(hq.parts p.absolute).1, fun h0 => p.zero_notMem (hq.1.mem h0),
      hq.1.length_le.trans_lt p.short⟩
  constructor
  · intro h
    have hp : StraightPath p.text := by
      by_contra hp
      obtain ⟨q, hq, hne⟩ := exists_onTheWay p.absolute p.zero_notMem hp
      exact hne ((h q hq).resolves []).2
    refine ⟨hp, fun q hq hcs => ?_⟩
    obtain ⟨ha, hzero, hlen⟩ := hway q hq
    have hstraight := hq.straight p.absolute hp
    have hwide := canonicalize_straight ha hzero hstraight []
    have htext := (narrow_straight ha hzero hlen hstraight hcs 0 []).2
    rw [((h q hq).narrow hcs 0 [] []).2, hwide] at htext
    by_contra hlong
    rw [if_neg hlong] at htext
    rw [htext] at hlong
    exact hlong (by decide)
  · rintro ⟨hp, hbytes⟩ q hq
    obtain ⟨ha, hzero, hlen⟩ := hway q hq
    exact right_straight ha hzero hlen (hq.straight p.absolute hp) (hbytes q hq)

/-! ### When the scan ends -/

theorem head_ne_zero {p : List ℕ} (hne : p ≠ []) (hzero : 0 ∉ p) (behind : List ℕ) :
    (p ++ behind).head?.all (· == 0) = false := by
  cases p with
  | nil => exact absurd rfl hne
  | cons u p => exact beq_eq_false_iff_ne.2 fun h => hzero (h ▸ List.mem_cons_self)

/-- **The scan of a straight path ends** at its terminator. -/
theorem endsIn_straight {p : List ℕ} (h : Absolute p) (hzero : 0 ∉ p) (hp : StraightPath p) :
    EndsIn (p ++ [0]) := by
  have hne : p ≠ [] := by
    rintro rfl
    rcases h with h | ⟨h, -⟩ <;> cases h
  have hmem : 0 ∈ p ++ [0] ∨ 3 ≤ (p ++ [0]).length := .inl (by simp)
  have hhead := head_ne_zero hne hzero [0]
  rw [endsIn_iff hhead hmem]
  by_contra hgo
  have hle := (le_length_canonicalize hhead hmem hgo ((resolved p).length + 1)).1
  rw [← append_zero, canonicalize_straight h hzero hp] at hle
  omega

theorem scan_noDot {src : List ℕ} (hdot : dot ∉ src) (hzero : 0 ∉ src) (dst tail : List ℕ) :
    (scan dst (src ++ 0 :: tail)).text.length = dst.length + src.length ∧
      scan dst (src ++ 0 :: tail) = scan dst (src ++ [0]) := by
  induction src generalizing dst with
  | nil => exact ⟨by rw [List.nil_append, scan_zero]; rfl, by simp⟩
  | cons u src ih =>
    obtain ⟨hu, hdot⟩ := not_or.1 (List.mem_cons.not.1 hdot)
    obtain ⟨hu0, hzero⟩ := not_or.1 (List.mem_cons.not.1 hzero)
    rw [List.cons_append, List.cons_append]
    cases hsep : units.isSep u with
    | true =>
      obtain ⟨hlen, heq⟩ := ih hdot hzero (dst ++ [slash])
      rw [scan_sep hsep, scan_sep hsep, after_text, hlen, heq]
      simp only [List.length_append, List.length_cons, List.length_nil, and_true]
      omega
    | false =>
      obtain ⟨hlen, heq⟩ := ih hdot hzero (dst ++ [u])
      rw [scan_plain (Ne.symm hu0) hsep (Ne.symm hu), scan_plain (Ne.symm hu0) hsep (Ne.symm hu),
        after_text, hlen, heq]
      simp only [List.length_append, List.length_cons, List.length_nil, and_true]
      omega

theorem copyRoot_path {path : List ℕ} (hzero : 0 ∉ path) :
    ∃ src, (copyRoot (path ++ [0])).2 = src ++ [0] ∧ ∀ u ∈ src, u ∈ path := by
  have hself : ∀ l : List ℕ, ∃ src, l ++ [0] = src ++ [0] ∧ ∀ u ∈ src, u ∈ l :=
    fun l => ⟨l, rfl, fun u hu => hu⟩
  rcases path with _ | ⟨u, _ | ⟨v, _ | ⟨w, r⟩⟩⟩
  · exact hself []
  · rw [List.singleton_append, copyRoot]
    split_ifs with hsep hcolon
    · exact ⟨[], rfl, fun v hv => absurd hv List.not_mem_nil⟩
    · cases hcolon
    · cases hcolon
    · exact hself [u]
  · rw [List.cons_append, copyRoot]
    split_ifs with hsep hcolon hsep'
    · exact ⟨[v], rfl, fun x hx => List.mem_cons_of_mem u hx⟩
    · cases hsep'
    · exact ⟨[], rfl, fun v hv => absurd hv List.not_mem_nil⟩
    · exact hself [u, v]
  · rw [List.cons_append, copyRoot]
    split_ifs with hsep hcolon hsep'
    · exact ⟨v :: w :: r, rfl, fun x hx => List.mem_cons_of_mem u hx⟩
    · exact ⟨r, rfl, fun x hx => by simp [hx]⟩
    · exact ⟨w :: r, rfl, fun x hx => List.mem_cons_of_mem u (List.mem_cons_of_mem v hx)⟩
    · exact hself (u :: v :: w :: r)

/-- **A path without dots** fits if it is short enough. -/
theorem fits_noDot {path : List ℕ} (hdot : dot ∉ path) (hzero : 0 ∉ path) :
    EndsIn (path ++ [0]) ∧ (Fits (path ++ [0]) ↔ path.length < MAX_PATH) := by
  by_cases hne : path = []
  · subst hne
    refine ⟨fun behind => rfl, iff_of_true ?_ (by decide)⟩
    unfold Fits
    decide
  have hmem : 0 ∈ path ++ [0] ∨ 3 ≤ (path ++ [0]).length := .inl (by simp)
  have hhead := head_ne_zero hne hzero [0]
  have hroot := length_copyRoot (path ++ [0])
  obtain ⟨src, hsrc, hsub⟩ := copyRoot_path hzero
  have hscan := scan_noDot (fun h => hdot (hsub dot h)) (fun h => hzero (hsub 0 h))
    (copyRoot (path ++ [0])).1
  have hlen := (hscan []).1
  rw [← hsrc] at hlen
  rw [hsrc, List.length_append, List.length_append, List.length_singleton] at hroot
  have hend : EndsIn (path ++ [0]) := by
    refine (endsIn_iff hhead hmem).2 ⟨?_, fun tail => ?_⟩
    · rw [hlen, hsrc, List.length_append, List.length_singleton]
      omega
    · rw [hsrc, ← append_zero]
      exact (hscan tail).2
  refine ⟨hend, fun hfits => ?_, fun hlt => fits_of_endsIn hmem ?_ hend⟩
  · obtain ⟨hle, hwrite⟩ := terminator_mem_writes hhead
    have := hfits _ hwrite
    omega
  · rw [List.length_append]
    exact hlt

/-- **`PathCanonicalize` and `GetFullPathName`**: which paths are resolved, and when the buffers are
not left. -/
theorem canonicalize_iff (p : AbsolutePath) (cwd : Option (List ℕ)) (name : List ℕ)
    (cwdA : Option (List UInt8)) (nameA : List UInt8) (n : ℕ) (path : List ℕ) :
    ((∀ q, OnTheWay p.text q → Right q) ↔ StraightPath p.text ∧
      ∀ q, OnTheWay p.text q → (∀ c ∈ q, Scalar c) →
        (utf8Text (resolved q)).length < MAX_PATH) ∧
    (0 ∉ name →
      ((∀ behind, Inside n (GetFullPathNameW cwd name n behind)) ↔
        ∀ path, (fullName units 1 0x5C cwd name n).1 = some path →
          EndsIn (path ++ [0]) ∧ Fits (path ++ [0]))) ∧
    (0 ∉ nameA →
      ((∀ past behind, Inside n (GetFullPathNameA cwdA nameA n past behind)) ↔
        ∀ path, (fullName bytes 0 0x2F cwdA nameA n).1 = some path → ∀ past,
          (converted past path).ret = 0 ∨
            EndsIn ((converted past path).writes.map Prod.snd))) ∧
    (Absolute path → 0 ∉ path → StraightPath path → EndsIn (path ++ [0])) ∧
    (path.length < MAX_PATH → EndsIn (path ++ [0]) → Fits (path ++ [0])) ∧
    (dot ∉ path → 0 ∉ path →
      EndsIn (path ++ [0]) ∧ (Fits (path ++ [0]) ↔ path.length < MAX_PATH)) := by
  refine ⟨forall_right_iff p, insideW_iff, insideA_iff, endsIn_straight,
    fun hlen => fits_of_endsIn (.inl (by simp)) ?_, fits_noDot⟩
  rw [List.length_append]
  exact hlen

/-- `/a/./b.c` -/
def samplePath : AbsolutePath where
  text := [0x2F, 0x61, 0x2F, 0x2E, 0x2F, 0x62, 0x2E, 0x63]
  zero_notMem := by decide
  absolute := .inl rfl
  short := by decide

theorem canonicalize_iff_samplePath :
    (∀ q, OnTheWay samplePath.text q → Right q) ∧
      ∀ behind, Inside 16 (GetFullPathNameW none samplePath.text 16 behind) := by
  obtain ⟨hright, hname, -, hends, hfits, -⟩ :=
    canonicalize_iff samplePath none samplePath.text none [] 16 samplePath.text
  have hstraight : StraightPath samplePath.text := by decide
  have hlengths : ∀ q ∈ samplePath.text.inits, (utf8Text (resolved q)).length < MAX_PATH := by
    decide
  refine ⟨hright.2 ⟨hstraight, fun q hq _ => hlengths q ((List.mem_inits _ _).2 hq.1)⟩, ?_⟩
  refine (hname samplePath.zero_notMem).2 fun path hpath => ?_
  obtain rfl : samplePath.text = path := Option.some.inj hpath
  have hin := hends samplePath.absolute samplePath.zero_notMem hstraight
  exact ⟨hin, hfits samplePath.short hin⟩

/-- `/a./b` becomes `/ab`; and a name of 1001 characters is written behind the end of the buffer. -/
theorem dot_in_name :
    ¬Right [0x2F, 0x61, 0x2E, 0x2F, 0x62] ∧
      ¬∀ behind, Inside 2000 (GetFullPathNameW none (0x2F :: letters 1000) 2000 behind) := by
  constructor
  · intro h
    exact absurd (h.resolves []).2 (by decide)
  · intro h
    have hzero : 0 ∉ 0x2F :: letters 1000 := by
      rintro (_ | ⟨_, hmem⟩)
      exact notMem_letters (by decide) 1000 hmem
    have hdot : dot ∉ 0x2F :: letters 1000 := by
      rintro (_ | ⟨_, hmem⟩)
      exact notMem_letters (by decide) 1000 hmem
    have hlen : (0x2F :: letters 1000).length = 1001 := by
      rw [List.length_cons, letters, List.length_replicate]
    have hname : (fullName units 1 0x5C none (0x2F :: letters 1000) 2000).1 =
        some (0x2F :: letters 1000) := by
      unfold fullName
      rw [if_neg (by decide : ¬PathIsRelative units (0x2F :: letters 1000) = true), hlen]
      rfl
    have hfits := ((insideW_iff hzero).1 h _ hname).2
    rw [(fits_noDot hdot hzero).2, hlen] at hfits
    exact absurd hfits (by decide)

end Canonicalize

end Shlwapi

end Swinx
