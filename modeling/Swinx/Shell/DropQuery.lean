import Swinx.Data.CodePageCalls

/-!
# The list of dropped files

A drop block is a header and a text with a file on each line, of bytes or of wide characters.
`DragQueryFile` counts the lines and copies one of them.  The units of a text are numbers; the
functions for the two widths are the same code where nothing is converted.

* `lineAt_of_crlfFirst` — the lines are found if no `CR LF` stands behind a lone `LF`.
* `countLoop_eq` — what is counted in a text.
* `own_iff` — when the calls of the width of the block are right but for a buffer of just the size.
* `dropped_iff` — the calls are right for blocks without a line only.
-/

namespace Swinx

namespace DropQuery

open Uniconv CodePage

/-- `strstr` and `wcsstr`, up to the `NUL` of the text -/
def strstr (pat : List ℕ) : List ℕ → Option (List ℕ)
  | [] => none
  | c :: s => if pat.isPrefixOf (c :: s) then some (c :: s) else strstr pat s

/-- `getLineEnd`: the end of the line and how many units it has -/
def getLineEnd (p : List ℕ) : Option (List ℕ × ℕ) :=
  match strstr [13, 10] p with
  | some e => some (e, 2)
  | none =>
    match strstr [10] p with
    | some e => some (e, 1)
    | none => none

/-- `GetDragQueryLineAt`: where the line begins, and its length as an `UINT` -/
def getDragQueryLineAt (buf : List ℕ) : ℕ → Option (List ℕ × ℕ)
  | 0 =>
    match getLineEnd buf with
    | some (e, _) => some (buf, (buf.length - e.length) % 4294967296)
    | none => some (buf, buf.length % 4294967296)
  | iFile + 1 =>
    match getLineEnd buf with
    | some (e, nEndLen) => getDragQueryLineAt (e.drop nEndLen) iFile
    | none => none

/-- The loop of `DragQueryFileSize`; it goes on by a unit or more. -/
def countLoop : ℕ → List ℕ → ℕ
  | 0, _ => 0
  | fuel + 1, buf =>
    if buf = [] then 0
    else
      match getLineEnd buf with
      | some (e, nEndLen) => countLoop fuel (e.drop nEndLen) + 1
      | none => 1

/-- The `i` of `DragQueryFileSize`, an `UINT` -/
def dragQueryFileSize (buf : List ℕ) : ℕ := countLoop buf.length buf % 4294967296

/-- A string up to its `NUL`. -/
def cString (units : List ℕ) : List ℕ := units.takeWhile (· ≠ 0)

/-- `DROPFILES` with what is behind it. -/
inductive DropFiles
  /-- Bytes, with the text at `sizeof(DROPFILES) + gap`. -/
  | narrow (behind : List UInt8) (gap : ℕ)
  /-- Wide characters; the units from the text on. -/
  | wide (units : List ℕ)

/-- The text of a block. -/
def DropFiles.buf : DropFiles → List ℕ
  | narrow behind gap => cString ((behind.drop gap).map UInt8.toNat)
  | wide units => cString units

/-- Where the lines are counted. -/
def DropFiles.counted : DropFiles → List ℕ
  | narrow behind _ => cString (behind.map UInt8.toNat)
  | wide units => cString units

/-- What a call does: its result, the units it writes with their places, and whether it sets
`ERROR_BUFFER_OVERFLOW`. -/
structure Answer where
  ret : ℤ
  writes : List (ℕ × ℕ)
  overflow : Bool

def Answer.returns (ret : ℤ) : Answer := ⟨ret, [], false⟩

def Answer.tooShort : Answer := ⟨0, [], true⟩

/-- A line is copied, with a terminator if there is room for it. -/
def copyLine (pLine : List ℕ) (lineLen cch : ℕ) : Answer where
  ret := lineLen
  writes := writesAt id (pLine.take lineLen) ++
    if (lineLen + 1) % 4294967296 ≤ cch then [(lineLen, 0)] else []
  overflow := false

/-- A line is converted; the call without a destination has told the length. -/
def convertLine {α : Type} (toUnit : α → ℕ) (call : Option ℕ → Called α) (cch : ℕ) : Answer :=
  let len := (call none).ret
  if len ≤ 0 then .returns 0
  else if len > toInt cch then .tooShort
  else
    let c := call (some cch)
    { ret := c.ret
      writes := (c.writes.map fun w => (w.1, toUnit w.2)) ++
        if 0 < c.ret ∧ c.ret < toInt cch then [(c.ret.toNat, 0)] else []
      overflow := false }

/-- `file:///` -/
def fileHeader : List ℕ := [102, 105, 108, 101, 58, 47, 47, 47]

/-- The source of a conversion: a length that is negative as an `int` stands for all of the
string. -/
def lineSource {α : Type} [Zero α] [DecidableEq α] (pLine : List α) (lineLen : ℕ) : Source α :=
  if toInt lineLen < 0 then
    .string (pLine.takeWhile (· ≠ 0)) fun h => by simpa using List.mem_takeWhile_imp h
  else .units (pLine.take lineLen)

section Calls

variable (width : Wide) (pastByte : UInt8) (pastWide : ℕ)

/-- `DragQueryFileA`, where `lpszFile` is `NULL` or has room for `cch` bytes -/
def dragQueryFileA (hDrop : DropFiles) (iFile : ℕ) (lpszFile : Option ℕ) : Answer :=
  if iFile = 4294967295 then .returns (dragQueryFileSize hDrop.counted)
  else
    match getDragQueryLineAt hDrop.buf iFile with
    | none => .returns 0
    | some (pLine, lineLen) =>
      match lpszFile with
      | none => .returns lineLen
      | some cch =>
        match hDrop with
        | .wide _ =>
          convertLine UInt8.toNat (toUtf8Call width pastWide (lineSource pLine lineLen)) cch
        | .narrow _ _ =>
          if toInt lineLen > toInt cch then .tooShort
          else if 8 < lineLen ∧ fileHeader.isPrefixOf pLine then
            copyLine (pLine.drop 7) (lineLen - 7) cch
          else copyLine pLine lineLen cch

/-- `DragQueryFileW` -/
def dragQueryFileW (hDrop : DropFiles) (iFile : ℕ) (lpszFile : Option ℕ) : Answer :=
  if iFile = 4294967295 then .returns (dragQueryFileSize hDrop.counted)
  else
    match getDragQueryLineAt hDrop.buf iFile with
    | none => .returns 0
    | some (pLine, lineLen) =>
      match lpszFile with
      | none => .returns lineLen
      | some cch =>
        match hDrop with
        | .wide _ => if lineLen > cch then .tooShort else copyLine pLine lineLen cch
        | .narrow _ _ =>
          convertLine id (multiByteToWideChar width pastByte false
            (lineSource (pLine.map Nat.toUInt8) lineLen).all) cch

end Calls

/-! ### What the calls owe -/

/-- A line with its end, `CR LF` or `LF`. -/
structure Line where
  text : List ℕ
  crlf : Bool
  text_ne : text ≠ []
  lf_not_mem : 10 ∉ text
  nul_not_mem : 0 ∉ text
  /-- Behind a `CR` the end would be `CR LF`. -/
  cr_last : crlf = false → text.getLast? ≠ some 13

/-- The units of the end. -/
def Line.ending (l : Line) : List ℕ := if l.crlf then [13, 10] else [10]

/-- **A text by its lines**; the last may be without an end. -/
structure Lines where
  ended : List Line
  last : List ℕ
  lf_not_mem : 10 ∉ last
  nul_not_mem : 0 ∉ last

/-- The lines with an end one after the other, and what is behind them. -/
def textOf (ended : List Line) (last : List ℕ) : List ℕ :=
  ended.flatMap (fun l => l.text ++ l.ending) ++ last

def linesOf (ended : List Line) (last : List ℕ) : List (List ℕ) :=
  ended.map Line.text ++ if last = [] then [] else [last]

def Lines.text (t : Lines) : List ℕ := textOf t.ended t.last

/-- The lines of the text. -/
def Lines.lines (t : Lines) : List (List ℕ) := linesOf t.ended t.last

/-- The line begins with the file scheme. -/
def HasHeader (l : List ℕ) : Prop := 8 < l.length ∧ fileHeader.isPrefixOf l

instance decidableHasHeader (l : List ℕ) : Decidable (HasHeader l) :=
  inferInstanceAs (Decidable (_ ∧ _))

/-- The line without the file scheme. -/
def fileOf (l : List ℕ) : List ℕ := if HasHeader l then l.drop 7 else l

/-- **A drop block with its lines.** -/
structure Block where
  hDrop : DropFiles
  lines : Lines
  buf_eq : hDrop.buf = lines.text

/-- The files as wide characters. -/
def Block.wideTexts (width : Wide) (b : Block) : List (List ℕ) :=
  b.lines.lines.map fun l =>
    match b.hDrop with
    | .wide _ => fileOf l
    | .narrow _ _ => fromUTF8 width 0 l.length ((fileOf l).map Nat.toUInt8)

/-- The files as bytes. -/
def Block.byteTexts (width : Wide) (b : Block) : List (List ℕ) :=
  b.lines.lines.map fun l =>
    match b.hDrop with
    | .wide _ => (toUTF8 width 0 (fileOf l)).map UInt8.toNat
    | .narrow _ _ => fileOf l

/-- The buffer after a call, where `memory` is what it had before. -/
def after (memory : ℕ → ℕ) (writes : List (ℕ × ℕ)) : ℕ → ℕ :=
  writes.foldl (fun buffer w => Function.update buffer w.1 w.2) memory

/-- The text and its terminator are written, and nothing else. -/
def Holds (writes : List (ℕ × ℕ)) (text : List ℕ) : Prop :=
  ∀ memory k, after memory writes k = (text ++ [0])[k]?.getD (memory k)

/-- **The calls of one form return the texts.** A buffer for fewer than `slack` units more than the
text is too small. -/
structure Queries (slack : ℕ) (call : ℕ → Option ℕ → Answer) (texts : List (List ℕ)) : Prop where
  count : ∀ dst, (call 4294967295 dst).ret = texts.length
  size : ∀ i text, texts[i]? = some text → i < 4294967295 → (call i none).ret = text.length
  fetch : ∀ i text, texts[i]? = some text → i < 4294967295 →
    (call i (some (text.length + 1))).ret = text.length ∧
      Holds (call i (some (text.length + 1))).writes text
  small : ∀ i text, texts[i]? = some text → i < 4294967295 → ∀ cch < text.length + slack,
    (call i (some cch)).ret = 0 ∧ (call i (some cch)).writes = []
  beyond : ∀ i, texts.length ≤ i → i < 4294967295 → ∀ dst, (call i dst).ret = 0

/-- **The calls of both forms return the same files**, and need room for the terminator. -/
def Right (width : Wide) (pastByte : UInt8) (pastWide : ℕ) (b : Block) : Prop :=
  Queries 1 (dragQueryFileA width pastWide b.hDrop) (b.byteTexts width) ∧
    Queries 1 (dragQueryFileW width pastByte b.hDrop) (b.wideTexts width)

/-- The call of the width of the block. -/
def own (width : Wide) (pastByte : UInt8) (pastWide : ℕ) (b : Block) :
    ℕ → Option ℕ → Answer :=
  match b.hDrop with
  | .wide _ => dragQueryFileW width pastByte b.hDrop
  | .narrow _ _ => dragQueryFileA width pastWide b.hDrop

/-! ### Searching a text -/

theorem strstr_crlf_cons (c c' : ℕ) (s : List ℕ) :
    strstr [13, 10] (c :: c' :: s) =
      if c = 13 ∧ c' = 10 then some (c :: c' :: s) else strstr [13, 10] (c' :: s) := by
  rw [strstr]
  refine if_congr ?_ rfl rfl
  simp only [List.isPrefixOf, Bool.and_true, Bool.and_eq_true, beq_iff_eq]
  omega

theorem strstr_crlf_single (c : ℕ) : strstr [13, 10] [c] = none := by
  simp [strstr, List.isPrefixOf]

theorem strstr_lf_cons (c : ℕ) (s : List ℕ) :
    strstr [10] (c :: s) = if c = 10 then some (c :: s) else strstr [10] s := by
  rw [strstr]
  refine if_congr ?_ rfl rfl
  simp only [List.isPrefixOf, Bool.and_true, beq_iff_eq]
  omega

/-- What is found is the end of the text and begins with the pattern. -/
theorem strstr_spec {pat t e : List ℕ} (h : strstr pat t = some e) :
    e <:+ t ∧ pat.isPrefixOf e = true := by
  induction t with
  | nil => cases h
  | cons c s ih =>
    rw [strstr] at h
    split_ifs at h with hp
    · cases h
      exact ⟨List.suffix_refl _, hp⟩
    · obtain ⟨hs, he⟩ := ih h
      exact ⟨hs.trans (List.suffix_cons c s), he⟩

theorem strstr_crlf {l : List ℕ} (rest : List ℕ) (h : 10 ∉ l) :
    strstr [13, 10] (l ++ 13 :: 10 :: rest) = some (13 :: 10 :: rest) := by
  induction l with
  | nil => rfl
  | cons c l ih =>
    have hl : 10 ∉ l := fun hm => h (List.mem_cons_of_mem c hm)
    cases l with
    | nil => rw [List.singleton_append, strstr_crlf_cons, if_neg (by omega), ← ih hl]; rfl
    | cons c' l =>
      have hc' : c' ≠ 10 := fun hc => hl (hc ▸ List.mem_cons_self)
      rw [List.cons_append, List.cons_append, strstr_crlf_cons, if_neg (by omega), ← ih hl]
      rfl

theorem strstr_lone {l : List ℕ} (rest : List ℕ) (h : 10 ∉ l) (hcr : l.getLast? ≠ some 13) :
    strstr [13, 10] (l ++ 10 :: rest) = strstr [13, 10] rest := by
  have hlf : strstr [13, 10] (10 :: rest) = strstr [13, 10] rest := by
    cases rest with
    | nil => exact strstr_crlf_single 10
    | cons c' s => rw [strstr_crlf_cons, if_neg (by omega)]
  induction l with
  | nil => exact hlf
  | cons c l ih =>
    have hl : 10 ∉ l := fun hm => h (List.mem_cons_of_mem c hm)
    cases l with
    | nil =>
      have hc : c ≠ 13 := fun hc => hcr (by rw [hc]; rfl)
      rw [List.singleton_append, strstr_crlf_cons, if_neg (by omega), hlf]
    | cons c' l =>
      have hc' : c' ≠ 10 := fun hc => hl (hc ▸ List.mem_cons_self)
      rw [List.getLast?_cons_cons] at hcr
      rw [List.cons_append, List.cons_append, strstr_crlf_cons, if_neg (by omega), ← ih hl hcr]
      rfl

theorem strstr_lf {l : List ℕ} (rest : List ℕ) (h : 10 ∉ l) :
    strstr [10] (l ++ 10 :: rest) = some (10 :: rest) := by
  induction l with
  | nil => rfl
  | cons c l ih =>
    have hc : c ≠ 10 := fun hc => h (hc ▸ List.mem_cons_self)
    rw [List.cons_append, strstr_lf_cons, if_neg hc, ih fun hm => h (List.mem_cons_of_mem c hm)]

theorem getLineEnd_eq_none {l : List ℕ} (h : 10 ∉ l) : getLineEnd l = none := by
  have hmem : ∀ pat e, 10 ∈ pat → strstr pat l = some e → False := by
    intro pat e hpat he
    obtain ⟨hs, hp⟩ := strstr_spec he
    exact h (hs.subset ((List.isPrefixOf_iff_prefix.1 hp).subset hpat))
  unfold getLineEnd
  cases h1 : strstr [13, 10] l with
  | some e => exact (hmem _ e (by simp) h1).elim
  | none =>
    cases h2 : strstr [10] l with
    | some e => exact (hmem _ e (by simp) h2).elim
    | none => rfl

/-! ### Counting -/

/-- The ends of lines in a text: each `CR LF`, and each `LF` behind the last of them. -/
def lineEnds : List ℕ → ℕ
  | [] => 0
  | [c] => if c = 10 then 1 else 0
  | c :: c' :: s =>
    if c = 13 ∧ c' = 10 then lineEnds s + 1
    else if c = 10 ∧ strstr [13, 10] (c' :: s) = none then lineEnds (c' :: s) + 1
    else lineEnds (c' :: s)

/-- The lines that are counted: one more, if the text goes on behind the last end. -/
def lineCount (t : List ℕ) : ℕ :=
  lineEnds t + if t = [] ∨ t.getLast? = some 10 then 0 else 1

theorem lineEnds_crlf {t e : List ℕ} (h : strstr [13, 10] t = some e) :
    lineEnds t = lineEnds (e.drop 2) + 1 := by
  induction t with
  | nil => cases h
  | cons c t ih =>
    cases t with
    | nil =>
      rw [strstr_crlf_single] at h
      cases h
    | cons c' s =>
      rw [strstr_crlf_cons] at h
      rw [lineEnds]
      split_ifs at h ⊢ with hc hlf
      · cases h
        rfl
      · rw [h] at hlf
        cases hlf.2
      · exact ih h

theorem lineEnds_lf {t e : List ℕ} (hno : strstr [13, 10] t = none) (h : strstr [10] t = some e) :
    lineEnds t = lineEnds (e.drop 1) + 1 := by
  induction t with
  | nil => cases h
  | cons c t ih =>
    rw [strstr_lf_cons] at h
    cases t with
    | nil =>
      split_ifs at h with hc
      · cases h
        rw [lineEnds, if_pos hc]
        rfl
      · cases h
    | cons c' s =>
      rw [strstr_crlf_cons] at hno
      split_ifs at hno with hcr
      rw [lineEnds, if_neg hcr]
      by_cases hc : c = 10
      · rw [if_pos hc] at h
        cases h
        rw [if_pos ⟨hc, hno⟩]
        rfl
      · rw [if_neg hc] at h
        rw [if_neg fun h => hc h.1]
        exact ih hno h

theorem lineEnds_none {t : List ℕ} (hno : strstr [13, 10] t = none) (h : strstr [10] t = none) :
    lineEnds t = 0 := by
  induction t with
  | nil => rfl
  | cons c t ih =>
    rw [strstr_lf_cons] at h
    split_ifs at h with hc
    cases t with
    | nil => rw [lineEnds, if_neg hc]
    | cons c' s =>
      rw [strstr_crlf_cons] at hno
      split_ifs at hno with hcr
      rw [lineEnds, if_neg hcr, if_neg (fun h => hc h.1), ih hno h]

/-- Behind the end of a line there is one line less to be counted. -/
theorem lineCount_drop {t e : List ℕ} {n : ℕ} (h : getLineEnd t = some (e, n)) :
    (e.drop n).length < t.length ∧ lineCount t = lineCount (e.drop n) + 1 := by
  have hmain : ∀ pat, strstr pat t = some e → pat.length = n → 0 < n → pat.getLast? = some 10 →
      lineEnds t = lineEnds (e.drop n) + 1 →
      (e.drop n).length < t.length ∧ lineCount t = lineCount (e.drop n) + 1 := by
    rintro pat hpat rfl hpos hlast hends
    obtain ⟨⟨pre, rfl⟩, hp⟩ := strstr_spec hpat
    obtain ⟨rest, rfl⟩ := List.isPrefixOf_iff_prefix.1 hp
    rw [List.drop_left] at hends ⊢
    refine ⟨by simp only [List.length_append]; omega, ?_⟩
    unfold lineCount
    rw [hends]
    have hiff : (pre ++ (pat ++ rest) = [] ∨ (pre ++ (pat ++ rest)).getLast? = some 10) ↔
        (rest = [] ∨ rest.getLast? = some 10) := by
      cases rest with
      | nil => simp [List.getLast?_append, hlast]
      | cons c s => simp [List.getLast?_append]
    rw [if_congr hiff rfl rfl]
    omega
  unfold getLineEnd at h
  cases h1 : strstr [13, 10] t with
  | some e' =>
    rw [h1] at h
    cases h
    exact hmain _ h1 rfl (by omega) rfl (lineEnds_crlf h1)
  | none =>
    rw [h1] at h
    cases h2 : strstr [10] t with
    | some e' =>
      rw [h2] at h
      cases h
      exact hmain _ h2 rfl (by omega) rfl (lineEnds_lf h1 h2)
    | none =>
      rw [h2] at h
      cases h

theorem not_mem_of_strstr_lf {t : List ℕ} (h : strstr [10] t = none) : 10 ∉ t := by
  induction t with
  | nil => exact List.not_mem_nil
  | cons c t ih =>
    rw [strstr_lf_cons] at h
    split_ifs at h with hc
    rw [List.mem_cons, not_or]
    exact ⟨Ne.symm hc, ih h⟩

theorem lineCount_none {t : List ℕ} (ht : t ≠ []) (h : getLineEnd t = none) : lineCount t = 1 := by
  unfold getLineEnd at h
  cases h1 : strstr [13, 10] t with
  | some e' =>
    rw [h1] at h
    cases h
  | none =>
    rw [h1] at h
    cases h2 : strstr [10] t with
    | some e' =>
      rw [h2] at h
      cases h
    | none =>
      have hlast : t.getLast? ≠ some 10 :=
        fun hl => not_mem_of_strstr_lf h2 (List.mem_of_getLast? hl)
      rw [lineCount, lineEnds_none h1 h2, if_neg (not_or.2 ⟨ht, hlast⟩)]

/-- **What the loop counts** in a text. -/
theorem countLoop_eq {fuel : ℕ} {t : List ℕ} (h : t.length ≤ fuel) :
    countLoop fuel t = lineCount t := by
  induction fuel generalizing t with
  | zero =>
    rw [List.length_eq_zero_iff.1 (Nat.le_zero.1 h)]
    rfl
  | succ fuel ih =>
    rw [countLoop]
    split_ifs with ht
    · rw [ht]
      rfl
    · cases hend : getLineEnd t with
      | none => exact (lineCount_none ht hend).symm
      | some en =>
        obtain ⟨e, n⟩ := en
        obtain ⟨hlt, heq⟩ := lineCount_drop hend
        rw [heq]
        dsimp only
        rw [ih (by omega)]

/-! ### Blocks without a line -/

theorem linesOf_eq_nil {ended : List Line} {last : List ℕ} (h : linesOf ended last = []) :
    ended = [] ∧ last = [] := by
  unfold linesOf at h
  obtain ⟨h1, h2⟩ := List.append_eq_nil_iff.1 h
  refine ⟨List.map_eq_nil_iff.1 h1, ?_⟩
  by_contra hlast
  rw [if_neg hlast] at h2
  cases h2

theorem ne_nil_of_mem_linesOf {ended : List Line} {last l : List ℕ}
    (h : l ∈ linesOf ended last) : l ≠ [] := by
  unfold linesOf at h
  rcases List.mem_append.1 h with h | h
  · obtain ⟨line, -, rfl⟩ := List.mem_map.1 h
    exact line.text_ne
  · split_ifs at h with hlast
    · exact absurd h List.not_mem_nil
    · rw [List.mem_singleton.1 h]
      exact hlast

theorem length_fileOf_pos {l : List ℕ} (h : l ≠ []) : 0 < (fileOf l).length := by
  unfold fileOf
  split_ifs with hh
  · have := hh.1
    rw [List.length_drop]
    omega
  · exact List.length_pos_iff.2 h

theorem getDragQueryLineAt_zero (buf : List ℕ) :
    ∃ n, getDragQueryLineAt buf 0 = some (buf, n) := by
  rw [getDragQueryLineAt]
  cases getLineEnd buf with
  | none => exact ⟨_, rfl⟩
  | some en => exact ⟨_, rfl⟩

/-- **A buffer of just the size of a line takes the line**, without a terminator. -/
theorem own_just_size (width : Wide) (pastByte : UInt8) (pastWide : ℕ) (b : Block) :
    ∃ n : ℕ, (own width pastByte pastWide b 0 none).ret = n ∧
      (0 < n → (own width pastByte pastWide b 0 (some n)).ret ≠ 0) := by
  obtain ⟨n, hn⟩ := getDragQueryLineAt_zero b.hDrop.buf
  have hzero : (0 : ℕ) ≠ 4294967295 := by decide
  unfold own
  cases hdrop : b.hDrop with
  | wide units =>
    rw [hdrop] at hn
    refine ⟨n, ?_, fun hpos => ?_⟩
    · simp only [dragQueryFileW, if_neg hzero, hn]
      rfl
    · simp only [dragQueryFileW, if_neg hzero, hn, if_neg (lt_irrefl n), copyLine]
      omega
  | narrow behind gap =>
    rw [hdrop] at hn
    refine ⟨n, ?_, fun hpos => ?_⟩
    · simp only [dragQueryFileA, if_neg hzero, hn]
      rfl
    · simp only [dragQueryFileA, if_neg hzero, hn, gt_iff_lt, lt_irrefl, if_false]
      split_ifs with hh
      · simp only [copyLine]
        omega
      · simp only [copyLine]
        omega

/-- The texts of the width of the block are the lines without the file scheme. -/
theorem Right.own {width : Wide} {pastByte : UInt8} {pastWide : ℕ} {b : Block}
    (h : Right width pastByte pastWide b) :
    Queries 1 (own width pastByte pastWide b) (b.lines.lines.map fileOf) := by
  obtain ⟨hA, hW⟩ := h
  unfold DropQuery.own
  unfold Block.byteTexts at hA
  unfold Block.wideTexts at hW
  cases hdrop : b.hDrop with
  | wide units =>
    rw [hdrop] at hW
    exact hW
  | narrow behind gap =>
    rw [hdrop] at hA
    exact hA

theorem count_iff (b : Block) (texts : List (List ℕ)) (h : texts.length = b.lines.lines.length) :
    (((dragQueryFileSize b.hDrop.counted : ℕ) : ℤ) = texts.length) ↔
      lineCount b.hDrop.counted % 4294967296 = b.lines.lines.length := by
  rw [dragQueryFileSize, countLoop_eq le_rfl, h]
  omega

theorem getDragQueryLineAt_nil (i : ℕ) :
    getDragQueryLineAt [] i = none ∨ getDragQueryLineAt [] i = some ([], 0) := by
  cases i with
  | zero => exact .inr rfl
  | succ i => exact .inl rfl

theorem convertLine_ret {α : Type} {toUnit : α → ℕ} {call : Option ℕ → Called α} {cch : ℕ}
    (h : (call none).ret = 0) : (convertLine toUnit call cch).ret = 0 := by
  unfold convertLine
  rw [h]
  rfl

theorem lineSource_zero {α : Type} [Zero α] [DecidableEq α] (pLine : List α) :
    lineSource pLine 0 = .units [] :=
  if_neg (by decide)

theorem ret_of_empty (width : Wide) (pastByte : UInt8) (pastWide : ℕ) {hDrop : DropFiles} {i : ℕ}
    (hi : i < 4294967295)
    (h : getDragQueryLineAt hDrop.buf i = none ∨
      ∃ p, getDragQueryLineAt hDrop.buf i = some (p, 0)) (dst : Option ℕ) :
    (dragQueryFileA width pastWide hDrop i dst).ret = 0 ∧
      (dragQueryFileW width pastByte hDrop i dst).ret = 0 := by
  have hne : i ≠ 4294967295 := by omega
  rcases h with h | ⟨p, h⟩
  · simp only [dragQueryFileA, dragQueryFileW, if_neg hne, h]
    exact ⟨rfl, rfl⟩
  · cases dst with
    | none =>
      simp only [dragQueryFileA, dragQueryFileW, if_neg hne, h]
      exact ⟨rfl, rfl⟩
    | some cch =>
      cases hdrop : hDrop with
      | wide units =>
        rw [hdrop] at h
        simp only [dragQueryFileA, dragQueryFileW, if_neg hne, h]
        constructor
        · exact convertLine_ret (by rw [lineSource_zero]; cases width <;> rfl)
        · rw [if_neg (Nat.not_lt_zero cch)]
          rfl
      | narrow behind gap =>
        rw [hdrop] at h
        simp only [dragQueryFileA, dragQueryFileW, if_neg hne, h]
        constructor
        · split_ifs with hshort hheader
          · rfl
          · exact absurd hheader.1 (by omega)
          · rfl
        · exact convertLine_ret (by rw [lineSource_zero]; cases width <;> rfl)

/-- **A line is returned to a buffer that has no room for its terminator.** -/
theorem Right.lines_eq_nil {width : Wide} {pastByte : UInt8} {pastWide : ℕ} {b : Block}
    (h : Right width pastByte pastWide b) : b.lines.lines = [] := by
  have hown := h.own
  cases hl : b.lines.lines with
  | nil => rfl
  | cons l rest =>
    have hget : (b.lines.lines.map fileOf)[0]? = some (fileOf l) := by
      rw [hl]
      rfl
    have hpos := length_fileOf_pos
      (ne_nil_of_mem_linesOf (show l ∈ b.lines.lines by rw [hl]; exact List.mem_cons_self))
    obtain ⟨n, hn, hne⟩ := own_just_size width pastByte pastWide b
    have hsize := hown.size 0 _ hget (by omega)
    rw [hn] at hsize
    have := hown.small 0 _ hget (by omega) n (by omega)
    exact absurd this.1 (hne (by omega))

theorem right_iff_no_lines (width : Wide) (pastByte : UInt8) (pastWide : ℕ) (b : Block) :
    Right width pastByte pastWide b ↔
      b.lines.lines = [] ∧ lineCount b.hDrop.counted % 4294967296 = 0 := by
  constructor
  · intro h
    have hnil := h.lines_eq_nil
    refine ⟨hnil, ?_⟩
    have hcount := h.1.count none
    have := (count_iff b _ (by unfold Block.byteTexts; rw [List.length_map])).1 hcount
    rw [this, hnil]
    rfl
  · rintro ⟨hnil, hcount⟩
    have hbuf : b.hDrop.buf = [] := by
      obtain ⟨h1, h2⟩ := linesOf_eq_nil hnil
      rw [b.buf_eq, Lines.text, h1, h2]
      rfl
    have hempty : ∀ i, getDragQueryLineAt b.hDrop.buf i = none ∨
        ∃ p, getDragQueryLineAt b.hDrop.buf i = some (p, 0) := by
      intro i
      rw [hbuf]
      exact (getDragQueryLineAt_nil i).imp id fun h => ⟨_, h⟩
    have hc : ((dragQueryFileSize b.hDrop.counted : ℕ) : ℤ) = 0 := by
      have := (count_iff b b.lines.lines rfl).2 (by rw [hcount, hnil]; rfl)
      rw [this, hnil]
      rfl
    have hA : b.byteTexts width = [] := by unfold Block.byteTexts; rw [hnil]; rfl
    have hW : b.wideTexts width = [] := by unfold Block.wideTexts; rw [hnil]; rfl
    have hno : ∀ (i : ℕ) (text : List ℕ), ([] : List (List ℕ))[i]? = some text → False := by
      intro i text h
      cases h
    unfold Right
    rw [hA, hW]
    refine ⟨⟨fun _ => hc, fun i t h => (hno i t h).elim, fun i t h => (hno i t h).elim,
        fun i t h => (hno i t h).elim, fun i _ hi dst => ?_⟩,
      ⟨fun _ => hc, fun i t h => (hno i t h).elim, fun i t h => (hno i t h).elim,
        fun i t h => (hno i t h).elim, fun i _ hi dst => ?_⟩⟩
    · exact (ret_of_empty width pastByte pastWide hi (hempty i) dst).1
    · exact (ret_of_empty width pastByte pastWide hi (hempty i) dst).2

/-! ### Finding the lines -/

/-- No `CR LF` stands behind a lone `LF`. -/
def CrlfFirst (ended : List Line) : Prop :=
  ended.Pairwise fun a b => a.crlf = false → b.crlf = false

theorem textOf_cons (l : Line) (ended : List Line) (last : List ℕ) :
    textOf (l :: ended) last = l.text ++ (l.ending ++ textOf ended last) := by
  simp only [textOf, List.flatMap_cons, List.append_assoc]

theorem linesOf_cons (l : Line) (ended : List Line) (last : List ℕ) :
    linesOf (l :: ended) last = l.text :: linesOf ended last := rfl

/-- There is no `CR LF` in a text of lines that end in a lone `LF`. -/
theorem strstr_textOf {ended : List Line} {last : List ℕ} (hlast : 10 ∉ last) :
    strstr [13, 10] (textOf ended last) = none ↔ ∀ l ∈ ended, l.crlf = false := by
  induction ended with
  | nil =>
    refine ⟨fun _ _ h => absurd h List.not_mem_nil, fun _ => ?_⟩
    cases h : strstr [13, 10] (textOf [] last) with
    | none => rfl
    | some e =>
      obtain ⟨hs, hp⟩ := strstr_spec h
      exact absurd (hs.subset ((List.isPrefixOf_iff_prefix.1 hp).subset (by simp))) hlast
  | cons l ended ih =>
    rw [textOf_cons, List.forall_mem_cons, Line.ending]
    cases hl : l.crlf with
    | true =>
      have := strstr_crlf (textOf ended last) l.lf_not_mem
      simp only [if_true, List.cons_append, List.nil_append, this]
      simp
    | false =>
      have := strstr_lone (textOf ended last) l.lf_not_mem (l.cr_last hl)
      simp only [Bool.false_eq_true, if_false, List.cons_append, List.nil_append, this, ih,
        true_and]

/-- **The first line is found**, or its end is taken for a part of it. -/
theorem getLineEnd_textOf (l : Line) (ended : List Line) {last : List ℕ} (hlast : 10 ∉ last) :
    ((l.crlf = false → ∀ l' ∈ ended, l'.crlf = false) ∧
      getLineEnd (textOf (l :: ended) last) =
        some (l.ending ++ textOf ended last, l.ending.length)) ∨
    (¬(l.crlf = false → ∀ l' ∈ ended, l'.crlf = false) ∧
      ∃ e, getLineEnd (textOf (l :: ended) last) = some (e, 2) ∧
        e.length ≤ (textOf ended last).length) := by
  rw [textOf_cons]
  unfold getLineEnd Line.ending
  cases hl : l.crlf with
  | true =>
    have := strstr_crlf (textOf ended last) l.lf_not_mem
    left
    simp only [if_true, List.cons_append, List.nil_append, this]
    exact ⟨fun h => absurd h (by decide), rfl⟩
  | false =>
    have hlone := strstr_lone (textOf ended last) l.lf_not_mem (l.cr_last hl)
    simp only [Bool.false_eq_true, if_false, List.cons_append, List.nil_append, hlone]
    cases h : strstr [13, 10] (textOf ended last) with
    | none =>
      left
      refine ⟨fun _ => (strstr_textOf hlast).1 h, ?_⟩
      rw [strstr_lf _ l.lf_not_mem]
      rfl
    | some e =>
      right
      refine ⟨fun hall => ?_, e, rfl, (strstr_spec h).1.length_le⟩
      rw [(strstr_textOf hlast).2 (hall trivial)] at h
      cases h

theorem lineAt_of_crlfFirst {ended : List Line} {last : List ℕ} (hlast : 10 ∉ last)
    (h : CrlfFirst ended) (hlen : (textOf ended last).length < 4294967296) (i : ℕ) :
    (∀ l, (linesOf ended last)[i]? = some l →
      ∃ rest, getDragQueryLineAt (textOf ended last) i = some (l ++ rest, l.length)) ∧
    ((linesOf ended last).length ≤ i → getDragQueryLineAt (textOf ended last) i = none ∨
      ∃ p, getDragQueryLineAt (textOf ended last) i = some (p, 0)) := by
  induction ended generalizing i with
  | nil =>
    have hend : getLineEnd (textOf [] last) = none := getLineEnd_eq_none hlast
    have hmod : (textOf [] last).length % 4294967296 = last.length := Nat.mod_eq_of_lt hlen
    have hlines : linesOf [] last = if last = [] then [] else [last] := rfl
    rw [hlines]
    cases i with
    | zero =>
      rw [getDragQueryLineAt, hend, hmod]
      split_ifs with hempty
      · refine ⟨fun l hl => absurd hl (by simp), fun _ => .inr ⟨[], ?_⟩⟩
        rw [hempty]
        rfl
      · refine ⟨fun l hl => ?_, fun hle => absurd hle (by simp)⟩
        cases hl
        exact ⟨[], by rw [List.append_nil]; rfl⟩
    | succ i =>
      rw [getDragQueryLineAt, hend]
      refine ⟨fun l hl => ?_, fun _ => .inl rfl⟩
      split_ifs at hl
      · cases hl
      · cases hl
  | cons l ended ih =>
    obtain ⟨hfirst, hrest⟩ := List.pairwise_cons.1 h
    have hlen' : (textOf ended last).length < 4294967296 := by
      rw [textOf_cons, List.length_append, List.length_append] at hlen
      omega
    rcases getLineEnd_textOf l ended hlast with ⟨-, hend⟩ | ⟨hno, -⟩
    · cases i with
      | zero =>
        rw [getDragQueryLineAt, hend]
        refine ⟨fun l' hl' => ?_, fun hle => absurd hle (by simp [linesOf_cons])⟩
        cases hl'
        refine ⟨l.ending ++ textOf ended last, ?_⟩
        dsimp only
        rw [textOf_cons] at hlen ⊢
        rw [List.length_append] at hlen ⊢
        rw [Nat.add_sub_cancel_right, Nat.mod_eq_of_lt (by omega)]
      | succ i =>
        rw [getDragQueryLineAt, hend]
        dsimp only
        rw [List.drop_left, linesOf_cons, List.getElem?_cons_succ]
        obtain ⟨h1, h2⟩ := ih hrest hlen' i
        exact ⟨h1, fun hle => h2 (Nat.le_of_succ_le_succ hle)⟩
    · exact absurd (fun hcr l' hl' => hfirst l' hl' hcr) hno

theorem lineCount_textOf {ended : List Line} {last : List ℕ} (hlast : 10 ∉ last)
    (h : CrlfFirst ended) : lineCount (textOf ended last) = (linesOf ended last).length := by
  induction ended with
  | nil =>
    have hlines : linesOf [] last = if last = [] then [] else [last] := rfl
    rw [hlines]
    split_ifs with hempty
    · rw [hempty]
      rfl
    · exact lineCount_none hempty (getLineEnd_eq_none hlast)
  | cons l ended ih =>
    obtain ⟨hfirst, hrest⟩ := List.pairwise_cons.1 h
    rcases getLineEnd_textOf l ended hlast with ⟨-, hend⟩ | ⟨hno, -⟩
    · rw [(lineCount_drop hend).2, List.drop_left, ih hrest]
      rfl
    · exact absurd (fun hcr l' hl' => hfirst l' hl' hcr) hno

theorem crlfFirst_of_lineAt {ended : List Line} {last : List ℕ} (hlast : 10 ∉ last)
    (hlen : (textOf ended last).length < 4294967296)
    (h : ∀ i l, (linesOf ended last)[i]? = some l →
      ∃ p n, getDragQueryLineAt (textOf ended last) i = some (p, n) ∧ n ≤ l.length) :
    CrlfFirst ended := by
  induction ended with
  | nil => exact .nil
  | cons l ended ih =>
    rw [textOf_cons, List.length_append, List.length_append] at hlen
    rcases getLineEnd_textOf l ended hlast with ⟨hall, hend⟩ | ⟨-, e, hend, he⟩
    · refine List.pairwise_cons.2 ⟨fun l' hl' hcr => hall hcr l' hl', ih (by omega) ?_⟩
      intro i l' hl'
      obtain ⟨p, n, hp, hn⟩ := h (i + 1) l' hl'
      rw [getDragQueryLineAt, hend] at hp
      dsimp only at hp
      rw [List.drop_left] at hp
      exact ⟨p, n, hp, hn⟩
    · obtain ⟨p, n, hp, hn⟩ := h 0 l.text rfl
      rw [getDragQueryLineAt, hend] at hp
      simp only [Option.some.injEq, Prod.mk.injEq] at hp
      obtain ⟨-, hp⟩ := hp
      have hpos : 0 < l.ending.length := by
        unfold Line.ending
        split_ifs <;> exact Nat.succ_pos _
      rw [textOf_cons, List.length_append, List.length_append,
        Nat.mod_eq_of_lt (by omega)] at hp
      omega

/-! ### The calls of the width of the block -/

/-- **Blocks whose lines are returned** by the calls of their own width, but for a buffer that has
just room for the line. -/
structure Fine (b : Block) : Prop where
  crlfFirst : CrlfFirst b.lines.ended
  noHeader : ∀ l ∈ b.lines.lines, ¬HasHeader l
  /-- The lines are counted in the text, or in a text with as many. -/
  counted : b.hDrop.counted = b.hDrop.buf ∨
    lineCount b.hDrop.counted % 4294967296 = b.lines.lines.length

section Own

variable {width : Wide} {pastByte : UInt8} {pastWide : ℕ} {b : Block} {i : ℕ}

theorem own_count (dst : Option ℕ) :
    (own width pastByte pastWide b 4294967295 dst).ret = dragQueryFileSize b.hDrop.counted := by
  unfold own
  cases b.hDrop with
  | wide units => rfl
  | narrow behind gap => rfl

theorem own_none {p : List ℕ} {n : ℕ} (hi : i < 4294967295)
    (h : getDragQueryLineAt b.hDrop.buf i = some (p, n)) :
    (own width pastByte pastWide b i none).ret = n := by
  have hne : i ≠ 4294967295 := by omega
  unfold own
  cases hdrop : b.hDrop with
  | wide units =>
    rw [hdrop] at h
    simp only [dragQueryFileW, if_neg hne, h]
    rfl
  | narrow behind gap =>
    rw [hdrop] at h
    simp only [dragQueryFileA, if_neg hne, h]
    rfl

theorem own_empty (hi : i < 4294967295)
    (h : getDragQueryLineAt b.hDrop.buf i = none ∨
      ∃ p, getDragQueryLineAt b.hDrop.buf i = some (p, 0)) (dst : Option ℕ) :
    (own width pastByte pastWide b i dst).ret = 0 := by
  have hret := ret_of_empty width pastByte pastWide hi h dst
  unfold own
  cases hdrop : b.hDrop with
  | wide units =>
    rw [hdrop] at hret
    exact hret.2
  | narrow behind gap =>
    rw [hdrop] at hret
    exact hret.1

/-- A line without the file scheme is copied to a buffer that has room for it. -/
theorem own_some {l rest : List ℕ} {cch : ℕ} (hi : i < 4294967295) (hlen : l.length < INT_MAX)
    (hcch : cch ≤ INT_MAX) (hheader : ¬HasHeader l)
    (h : getDragQueryLineAt b.hDrop.buf i = some (l ++ rest, l.length)) :
    own width pastByte pastWide b i (some cch) =
      if cch < l.length then .tooShort else copyLine (l ++ rest) l.length cch := by
  have hne : i ≠ 4294967295 := by omega
  unfold own
  cases hdrop : b.hDrop with
  | wide units =>
    rw [hdrop] at h
    simp only [dragQueryFileW, if_neg hne, h]
  | narrow behind gap =>
    rw [hdrop] at h
    have hprefix : ¬(8 < l.length ∧ fileHeader.isPrefixOf (l ++ rest) = true) := by
      rintro ⟨h8, hp⟩
      refine hheader ⟨h8, ?_⟩
      rw [List.isPrefixOf_iff_prefix] at hp ⊢
      exact List.prefix_of_prefix_length_le hp (List.prefix_append l rest) h8.le
    simp only [dragQueryFileA, if_neg hne, h, if_neg hprefix, toInt_of_le hlen.le,
      toInt_of_le hcch]
    refine if_congr ?_ rfl rfl
    omega

theorem copyLine_holds (l rest : List ℕ) :
    Holds (copyLine (l ++ rest) l.length (l.length + 1)).writes l := by
  intro memory k
  have hmod : (l.length + 1) % 4294967296 ≤ l.length + 1 := Nat.mod_le _ _
  rw [copyLine]
  dsimp only
  rw [if_pos hmod, List.take_left]
  have hconcat := writesAt_concat id l 0
  rw [id_eq] at hconcat
  rw [← hconcat, after, writesAt, foldl_writes id (l ++ [0]) fun _ _ => rfl,
    if_neg (Nat.not_lt_zero k), Nat.sub_zero]

theorem length_le_of_mem_linesOf {ended : List Line} {last l : List ℕ}
    (h : l ∈ linesOf ended last) : l.length ≤ (textOf ended last).length := by
  induction ended with
  | nil =>
    unfold linesOf at h
    rw [List.map_nil, List.nil_append] at h
    split_ifs at h with hlast
    · exact absurd h List.not_mem_nil
    · rw [List.mem_singleton.1 h]
      exact le_rfl
  | cons line ended ih =>
    rw [textOf_cons, List.length_append, List.length_append]
    rcases List.mem_cons.1 h with rfl | h
    · omega
    · have := ih h
      omega

theorem length_linesOf_le (ended : List Line) (last : List ℕ) :
    (linesOf ended last).length ≤ (textOf ended last).length := by
  induction ended with
  | nil =>
    unfold linesOf
    rw [List.map_nil, List.nil_append]
    split_ifs with hlast
    · exact Nat.zero_le _
    · exact List.length_pos_iff.2 hlast
  | cons line ended ih =>
    rw [textOf_cons, List.length_append, List.length_append, linesOf_cons, List.length_cons]
    have := List.length_pos_iff.2 line.text_ne
    omega

/-- **The calls of the width of the block are right exactly for these blocks.** -/
theorem own_iff (hlen : b.lines.text.length < INT_MAX) :
    Queries 0 (own width pastByte pastWide b) (b.lines.lines.map fileOf) ↔ Fine b := by
  have hmax : INT_MAX = 2147483647 := rfl
  have htext : (textOf b.lines.ended b.lines.last).length < INT_MAX := hlen
  have hlen' : (textOf b.lines.ended b.lines.last).length < 4294967296 := by omega
  have hindex : ∀ i l, b.lines.lines[i]? = some l → i < 4294967295 := by
    intro i l hl
    have h1 := (List.getElem?_eq_some_iff.1 hl).1
    have h2 := length_linesOf_le b.lines.ended b.lines.last
    have h3 : b.lines.lines = linesOf b.lines.ended b.lines.last := rfl
    rw [h3] at h1
    omega
  have hfile : ∀ (i : ℕ) (l : List ℕ), b.lines.lines[i]? = some l →
      (b.lines.lines.map fileOf)[i]? = some (fileOf l) := by
    intro i l hl
    rw [List.getElem?_map, hl]
    rfl
  have hbuf : b.hDrop.buf = textOf b.lines.ended b.lines.last := b.buf_eq
  constructor
  · intro h
    have hfirst : CrlfFirst b.lines.ended := by
      refine crlfFirst_of_lineAt b.lines.lf_not_mem hlen' fun i l hl => ?_
      have hsize := h.size i _ (hfile i l hl) (hindex i l hl)
      have hpos := length_fileOf_pos (ne_nil_of_mem_linesOf (List.mem_of_getElem? hl))
      cases hat : getDragQueryLineAt b.hDrop.buf i with
      | none =>
        rw [own_empty (hindex i l hl) (.inl hat)] at hsize
        omega
      | some pn =>
        obtain ⟨p, n⟩ := pn
        rw [own_none (hindex i l hl) hat] at hsize
        refine ⟨p, n, hbuf ▸ hat, ?_⟩
        have : (fileOf l).length ≤ l.length := by
          unfold fileOf
          split_ifs
          · rw [List.length_drop]
            omega
          · exact le_rfl
        omega
    refine ⟨hfirst, fun l hl hheader => ?_, ?_⟩
    · obtain ⟨i, hi⟩ := List.getElem?_of_mem hl
      obtain ⟨rest, hat⟩ := (lineAt_of_crlfFirst b.lines.lf_not_mem hfirst hlen' i).1 l hi
      have hsize := h.size i _ (hfile i l hi) (hindex i l hi)
      rw [own_none (hindex i l hi) (hbuf ▸ hat), fileOf, if_pos hheader, List.length_drop] at hsize
      have := hheader.1
      omega
    · have hcount := h.count none
      rw [own_count] at hcount
      exact .inr ((count_iff b _ (List.length_map _)).1 hcount)
  · rintro ⟨hfirst, hheader, hcounted⟩
    have hplain : b.lines.lines.map fileOf = b.lines.lines :=
      (List.map_congr_left fun l hl => if_neg (hheader l hl)).trans (List.map_id _)
    rw [hplain]
    have hat : ∀ i l, b.lines.lines[i]? = some l →
        ∃ rest, getDragQueryLineAt b.hDrop.buf i = some (l ++ rest, l.length) := by
      intro i l hl
      rw [hbuf]
      exact (lineAt_of_crlfFirst b.lines.lf_not_mem hfirst hlen' i).1 l hl
    have hshort : ∀ (i : ℕ) (l : List ℕ), b.lines.lines[i]? = some l → l.length < INT_MAX :=
      fun i l hl =>
        lt_of_le_of_lt (length_le_of_mem_linesOf (List.mem_of_getElem? hl)) hlen
    refine ⟨fun dst => ?_, fun i l hl hi => ?_, fun i l hl hi => ?_, fun i l hl hi cch hcch => ?_,
      fun i hi hi' dst => ?_⟩
    · rw [own_count]
      refine (count_iff b _ rfl).2 (hcounted.elim (fun htxt => ?_) id)
      rw [htxt, hbuf, lineCount_textOf b.lines.lf_not_mem hfirst]
      exact Nat.mod_eq_of_lt ((length_linesOf_le _ _).trans_lt hlen')
    · obtain ⟨rest, hat⟩ := hat i l hl
      exact own_none hi hat
    · obtain ⟨rest, hat⟩ := hat i l hl
      have hs := hshort i l hl
      rw [own_some hi hs (by omega) (hheader l (List.mem_of_getElem? hl)) hat, if_neg (by omega)]
      exact ⟨rfl, copyLine_holds l rest⟩
    · obtain ⟨rest, hat⟩ := hat i l hl
      have hs := hshort i l hl
      rw [own_some hi hs (by omega) (hheader l (List.mem_of_getElem? hl)) hat, if_pos (by omega)]
      exact ⟨rfl, rfl⟩
    · refine own_empty hi' ?_ dst
      rw [hbuf]
      exact (lineAt_of_crlfFirst b.lines.lf_not_mem hfirst hlen' i).2 hi

end Own

/-- The lines `a`, `b` and `c` with the ends `LF` and `CR LF`. -/
def mixed : Block where
  hDrop := .narrow [97, 10, 98, 13, 10, 99] 0
  lines :=
    { ended :=
        [⟨[97], false, by decide, by decide, by decide, by decide⟩,
          ⟨[98], true, by decide, by decide, by decide, by decide⟩]
      last := [99]
      lf_not_mem := by decide
      nul_not_mem := by decide }
  buf_eq := rfl

/-- **Of three lines two are counted**, and the first is `a LF b`. -/
theorem two_of_three :
    ¬Right .utf32 0 0 mixed ∧ mixed.lines.lines.length = 3 ∧
      (dragQueryFileA .utf32 0 mixed.hDrop 4294967295 none).ret = 2 ∧
      (dragQueryFileA .utf32 0 mixed.hDrop 0 none).ret = 3 := by
  refine ⟨fun h => ?_, rfl, rfl, rfl⟩
  have := h.lines_eq_nil
  revert this
  decide

/-- **The calls are right for blocks without a line only**, as each line is returned without a
terminator to a buffer that has just room for the line.  But for such buffers, the calls of the
width of the block are right for those with each `CR LF` before each lone `LF`, without a file
scheme, and counted where the text is. -/
theorem dropped_iff (width : Wide) (pastByte : UInt8) (pastWide : ℕ) (b : Block) :
    (Right width pastByte pastWide b ↔
      b.lines.lines = [] ∧ lineCount b.hDrop.counted % 4294967296 = 0) ∧
    (b.lines.text.length < INT_MAX →
      (Queries 0 (own width pastByte pastWide b) (b.lines.lines.map fileOf) ↔ Fine b)) :=
  ⟨right_iff_no_lines width pastByte pastWide b, own_iff⟩

end DropQuery

end Swinx
