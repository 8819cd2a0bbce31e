import Swinx.Data.Bytes
import Swinx.Data.CString
import Swinx.Data.UniconvCalls
import Swinx.Profile.Format

/-!
# The encodings of profile files

A profile file is in UTF-8 or in UTF-16, and a marker at its begin tells which; without a marker it
is taken to be in the ANSI code page, which is UTF-8 as well.  `PROFILE_Save` writes the marker of
the encoding that was found, and the sections one after the other.

A wide character has 16 or 32 bits, and a file in UTF-16 is read character by character, so it is
read right with 16 bits only.

* `PROFILE_Load_writeFile` — a file that holds a text in an encoding is read as that text.
* `load_save_load_iff` — which files are read back once they were read and written.
-/

namespace Swinx

namespace Profile

open Lines Uniconv

inductive ENCODING
  | ANSI
  | UTF8
  | UTF16LE
  | UTF16BE
  deriving DecidableEq, Repr

def bom_utf8 : Bytes := [0xEF, 0xBB, 0xBF]

def bom_utfle : Bytes := [0xFF, 0xFE]

def bom_utfbe : Bytes := [0xFE, 0xFF]

/-- `PROFILE_DetectTextEncoding`, with the length of the marker -/
def PROFILE_DetectTextEncoding (buffer : Bytes) : ENCODING × ℕ :=
  if bom_utf8 <+: buffer then (.UTF8, bom_utf8.length)
  else if bom_utfle <+: buffer then (.UTF16LE, bom_utfle.length)
  else if bom_utfbe <+: buffer then (.UTF16BE, bom_utfbe.length)
  else (.ANSI, 0)

/-- `PROFILE_ByteSwapShortBuffer`: the bytes of the first `len` shorts change places. -/
def PROFILE_ByteSwapShortBuffer : ℕ → Bytes → Bytes
  | len + 1, a :: b :: buffer => b :: a :: PROFILE_ByteSwapShortBuffer len buffer
  | _, buffer => buffer

section Code

variable (wide : Wide)

/-- `szFile`, the text behind the marker.  What stands behind the buffer is taken to be 0. -/
def szFile (encoding : ENCODING) (buffer : Bytes) : WString :=
  match encoding with
  | .ANSI => fromUTF8 wide 0 (towstringLength wide buffer) buffer
  | .UTF8 => fromUTF8 wide 0 (towstringLength wide buffer) buffer
  | .UTF16LE => Bytes.words wide.size buffer
  | .UTF16BE =>
    Bytes.words wide.size (PROFILE_ByteSwapShortBuffer (buffer.length / wide.size) buffer)

/-- `PROFILE_Load`.  The encoding stays what it was when the file is empty. -/
def PROFILE_Load (encoding : ENCODING) (file : Bytes) : List PROFILESECTION × ENCODING :=
  if file = [] then ([], encoding)
  else
    let d := PROFILE_DetectTextEncoding file
    (loadText (szFile wide d.1 (file.drop d.2)), d.1)

/-- `PROFILE_WriteMarker` -/
def PROFILE_WriteMarker : ENCODING → Bytes
  | .ANSI => []
  | .UTF8 => bom_utf8
  | .UTF16LE => Bytes.ofWords wide.size [0xFEFF]
  | .UTF16BE => Bytes.ofWords wide.size [0xFFFE]

/-- `PROFILE_WriteLine` -/
def PROFILE_WriteLine (encoding : ENCODING) (szLine : WString) : Bytes :=
  match encoding with
  | .ANSI => toUTF8 wide 0 szLine
  | .UTF8 => toUTF8 wide 0 szLine
  | .UTF16LE => Bytes.ofWords wide.size szLine
  | .UTF16BE => PROFILE_ByteSwapShortBuffer szLine.length (Bytes.ofWords wide.size szLine)

/-- `PROFILE_Save` -/
def PROFILE_Save (encoding : ENCODING) (tree : List PROFILESECTION) : Bytes :=
  PROFILE_WriteMarker wide encoding ++
    tree.flatMap fun s => PROFILE_WriteLine wide encoding (sectionText s)

/-! ### Texts -/

/-- The units are those of whole characters. -/
def WholeText (text : WString) : Prop := ∃ cs : List ℕ, (∀ c ∈ cs, Scalar c) ∧ text = wide.text cs

/-- **The encoding can hold the text.** -/
def Encodes : ENCODING → WString → Prop
  | .ANSI, text => WholeText wide text
  | .UTF8, text => WholeText wide text
  | .UTF16LE, text => wide = .utf16 ∧ ∀ c ∈ text, c < 256 ^ 2
  | .UTF16BE, text => wide = .utf16 ∧ ∀ c ∈ text, c < 256 ^ 2

/-- The character that is the marker. -/
def MARK : ℕ := 0xFEFF

/-- Without a marker of its own the text does not begin with one. -/
def Unmarked (encoding : ENCODING) (text : WString) : Prop :=
  encoding = .ANSI → text.head? ≠ some MARK

/-- A file that holds the text in the encoding. -/
def writeFile (encoding : ENCODING) (text : WString) : Bytes :=
  PROFILE_WriteMarker wide encoding ++ PROFILE_WriteLine wide encoding text

/-- **A file with a text that can be read.** -/
structure Holds (file : Bytes) (encoding : ENCODING) (text : WString) : Prop where
  encodes : Encodes wide encoding text
  unmarked : Unmarked encoding text
  /-- The sizes fit an `int`, here and in the file that is written. -/
  size : file.length < 2 ^ 30
  file : file = writeFile wide encoding text

end Code

variable {wide : Wide} {encoding : ENCODING} {text s t : WString} {tree : List PROFILESECTION}

/-! ### Cuts of a text -/

/-- A text of whole characters is cut at a unit that is a character of its own. -/
theorem wideText_cut {cs : List ℕ} {a b : WString} {x : ℕ} (hx : x < 0xD800)
    (h : wide.text cs = a ++ x :: b) : ∃ as bs, cs = as ++ x :: bs ∧ wide.text as = a ∧
      wide.text bs = b := by
  induction cs generalizing a with
  | nil => simp [Wide.text] at h
  | cons c cs ih =>
    rw [Wide.text_cons] at h
    have hone : wide.encode c = [c] → ∃ as bs, c :: cs = as ++ x :: bs ∧ wide.text as = a ∧
        wide.text bs = b := by
      intro he
      rw [he, List.singleton_append] at h
      cases a with
      | nil =>
        obtain ⟨rfl, rfl⟩ := List.cons.inj h
        exact ⟨[], cs, rfl, rfl, rfl⟩
      | cons y a =>
        obtain ⟨rfl, htail⟩ := List.cons.inj h
        obtain ⟨as, bs, rfl, rfl, rfl⟩ := ih htail
        exact ⟨c :: as, bs, rfl, by rw [Wide.text_cons, he]; rfl, rfl⟩
    cases wide with
    | utf32 => exact hone rfl
    | utf16 =>
      by_cases hc : c < 0x10000
      · exact hone (if_pos hc)
      have he : Wide.utf16.encode c =
          [0xD800 + (c - 0x10000) / 1024, 0xDC00 + (c - 0x10000) % 1024] := if_neg hc
      rw [he] at h
      -- The units of a pair are no characters of their own.
      cases a with
      | nil => exact absurd (List.cons.inj h).1 (by omega)
      | cons y a =>
        obtain ⟨hy, hpair⟩ := List.cons.inj h
        cases a with
        | nil => exact absurd (List.cons.inj hpair).1 (by omega)
        | cons z a =>
          obtain ⟨hz, htail⟩ := List.cons.inj hpair
          obtain ⟨as, bs, rfl, rfl, rfl⟩ := ih htail
          exact ⟨c :: as, bs, rfl, by rw [Wide.text_cons, he, hy, hz]; rfl, rfl⟩

theorem wideText_append (as bs : List ℕ) :
    wide.text (as ++ bs) = wide.text as ++ wide.text bs := List.flatMap_append

theorem WholeText.append (hs : WholeText wide s) (ht : WholeText wide t) :
    WholeText wide (s ++ t) := by
  obtain ⟨as, has, rfl⟩ := hs
  obtain ⟨bs, hbs, rfl⟩ := ht
  exact ⟨as ++ bs, List.forall_mem_append.2 ⟨has, hbs⟩, (wideText_append as bs).symm⟩

theorem WholeText.singleton {x : ℕ} (hx : x < 0xD800) : WholeText wide [x] := by
  refine ⟨[x], List.forall_mem_singleton.2 (.inl hx), ?_⟩
  cases wide with
  | utf16 =>
    have hbmp : x < 0x10000 := by omega
    simp [Wide.text, Wide.encode, hbmp]
  | utf32 => rfl

theorem wholeText_cutAt : CutAt (· < 0x80) (WholeText wide) := by
  rintro a x b hx ⟨cs, hcs, h⟩
  have hxd : x < 0xD800 := Nat.lt_trans hx (by decide)
  obtain ⟨as, bs, rfl, rfl, rfl⟩ := wideText_cut hxd h.symm
  obtain ⟨has, hbs⟩ := List.forall_mem_append.1 hcs
  exact ⟨⟨as, has, rfl⟩, bs, (List.forall_mem_cons.1 hbs).2, rfl⟩

/-- **A property of texts that goes over to their parts**, and back to what is put together. -/
structure Textual (P : WString → Prop) : Prop where
  cut : CutAt (· < 0x80) P
  nil : P []
  singleton : ∀ x < 0x80, P [x]
  append : ∀ s t, P s → P t → P (s ++ t)

/-- An encoding that is read right. -/
def Supported (wide : Wide) (encoding : ENCODING) : Prop :=
  encoding = .ANSI ∨ encoding = .UTF8 ∨ wide = .utf16

theorem Encodes.supported (h : Encodes wide encoding text) : Supported wide encoding := by
  cases encoding with
  | ANSI => exact .inl rfl
  | UTF8 => exact .inr (.inl rfl)
  | UTF16LE => exact .inr (.inr h.1)
  | UTF16BE => exact .inr (.inr h.1)

theorem textual_wholeText : Textual (WholeText wide) where
  cut := wholeText_cutAt
  nil := ⟨[], fun _ h => absurd h List.not_mem_nil, rfl⟩
  singleton x hx := WholeText.singleton (Nat.lt_trans hx (by decide))
  append _ _ := WholeText.append

theorem textual_units (h : wide = .utf16) :
    Textual fun text => wide = .utf16 ∧ ∀ c ∈ text, c < 256 ^ 2 where
  cut := by
    rintro a x b - ⟨-, hall⟩
    obtain ⟨ha, hb⟩ := List.forall_mem_append.1 hall
    exact ⟨⟨h, ha⟩, h, (List.forall_mem_cons.1 hb).2⟩
  nil := ⟨h, fun _ hmem => absurd hmem List.not_mem_nil⟩
  singleton x hx := ⟨h, List.forall_mem_singleton.2 (Nat.lt_trans hx (by decide))⟩
  append _ _ hs ht := ⟨h, List.forall_mem_append.2 ⟨hs.2, ht.2⟩⟩

theorem Supported.textual (h : Supported wide encoding) : Textual (Encodes wide encoding) := by
  cases encoding with
  | ANSI => exact textual_wholeText
  | UTF8 => exact textual_wholeText
  | UTF16LE => exact textual_units (by simpa [Supported] using h)
  | UTF16BE => exact textual_units (by simpa [Supported] using h)

/-! ### Reading what was written -/

theorem length_byteSwap (n : ℕ) (bs : Bytes) :
    (PROFILE_ByteSwapShortBuffer n bs).length = bs.length := by
  induction n, bs using PROFILE_ByteSwapShortBuffer.induct with
  | case1 n a b bs ih => simp [PROFILE_ByteSwapShortBuffer, ih]
  | case2 n bs h => rw [PROFILE_ByteSwapShortBuffer.eq_2 n bs h]

/-- The bytes change places twice. -/
theorem byteSwap_byteSwap (n : ℕ) (bs : Bytes) :
    PROFILE_ByteSwapShortBuffer n (PROFILE_ByteSwapShortBuffer n bs) = bs := by
  induction n, bs using PROFILE_ByteSwapShortBuffer.induct with
  | case1 n a b bs ih => simp [PROFILE_ByteSwapShortBuffer, ih]
  | case2 n bs h =>
    rw [PROFILE_ByteSwapShortBuffer.eq_2 n bs h, PROFILE_ByteSwapShortBuffer.eq_2 n bs h]

theorem byteSwap_append (n : ℕ) (us : List ℕ) (bs : Bytes) :
    PROFILE_ByteSwapShortBuffer (us.length + n) (Bytes.ofWords 2 us ++ bs) =
      PROFILE_ByteSwapShortBuffer us.length (Bytes.ofWords 2 us) ++
        PROFILE_ByteSwapShortBuffer n bs := by
  induction us with
  | nil => simp [Bytes.ofWords, PROFILE_ByteSwapShortBuffer]
  | cons u us ih =>
    have htwo : Bytes.ofWords 2 (u :: us) =
        UInt8.ofNat u :: UInt8.ofNat (u / 256) :: Bytes.ofWords 2 us := rfl
    rw [htwo, List.length_cons, Nat.add_right_comm]
    simp only [List.cons_append, PROFILE_ByteSwapShortBuffer, ih]

/-- Two texts are written one after the other. -/
theorem PROFILE_WriteLine_append (hs : Encodes wide encoding s) (ht : Encodes wide encoding t) :
    PROFILE_WriteLine wide encoding (s ++ t) =
      PROFILE_WriteLine wide encoding s ++ PROFILE_WriteLine wide encoding t := by
  have hutf8 : WholeText wide s → WholeText wide t →
      toUTF8 wide 0 (s ++ t) = toUTF8 wide 0 s ++ toUTF8 wide 0 t := by
    rintro ⟨as, has, rfl⟩ ⟨bs, hbs, rfl⟩
    rw [← wideText_append, toUTF8_text wide 0 (List.forall_mem_append.2 ⟨has, hbs⟩),
      toUTF8_text wide 0 has, toUTF8_text wide 0 hbs]
    exact List.flatMap_append
  cases encoding with
  | ANSI => exact hutf8 hs ht
  | UTF8 => exact hutf8 hs ht
  | UTF16LE => exact List.flatMap_append
  | UTF16BE =>
    obtain ⟨rfl, -⟩ := hs
    rw [PROFILE_WriteLine, Bytes.ofWords, List.flatMap_append, List.length_append]
    exact byteSwap_append t.length s _

/-- **A text that was written is read.** -/
theorem szFile_PROFILE_WriteLine (h : Encodes wide encoding text) :
    szFile wide encoding (PROFILE_WriteLine wide encoding text) = text := by
  have hutf8 : WholeText wide text →
      fromUTF8 wide 0 (towstringLength wide (toUTF8 wide 0 text)) (toUTF8 wide 0 text) = text := by
    rintro ⟨cs, hcs, rfl⟩
    rw [toUTF8_text wide 0 hcs, towstringLength_text wide hcs]
    exact fromUTF8_text wide 0 hcs 0
  cases encoding with
  | ANSI => exact hutf8 h
  | UTF8 => exact hutf8 h
  | UTF16LE =>
    obtain ⟨rfl, hall⟩ := h
    exact Bytes.words_ofWords (by decide) hall
  | UTF16BE =>
    obtain ⟨rfl, hall⟩ := h
    rw [szFile, PROFILE_WriteLine, length_byteSwap, Bytes.length_ofWords,
      Nat.mul_div_cancel _ (by decide), byteSwap_byteSwap]
    exact Bytes.words_ofWords (by decide) hall

/-! ### The marker -/

theorem bom_utf8_prefix_iff {c : ℕ} (hc : Scalar c) (bs : Bytes) :
    bom_utf8 <+: utf8 c ++ bs ↔ c = MARK := by
  have hlt := hc.lt
  have hlead : ∀ {b : UInt8} {rest : Bytes}, b.toNat ≠ 0xEF → ¬ bom_utf8 <+: b :: rest := by
    rintro b rest hb ⟨u, hu⟩
    exact hb (congrArg UInt8.toNat (List.cons.inj hu).1).symm
  unfold utf8
  split_ifs with h1 h2 h3
  · obtain ⟨b, he, hb⟩ := utf8One_eq h1
    rw [he]
    exact iff_of_false (hlead (by omega)) (by unfold MARK; omega)
  · obtain ⟨b₀, b₁, he, hb₀, -⟩ := utf8Two_eq h2
    rw [he]
    exact iff_of_false (hlead (by omega)) (by unfold MARK; omega)
  · obtain ⟨b₀, b₁, b₂, he, hb₀, hb₁, hb₂⟩ := utf8Three_eq h3
    rw [he, bom_utf8]
    simp only [List.cons_append, List.cons_prefix_cons, List.nil_append, List.nil_prefix, and_true,
      ← UInt8.toNat_inj, hb₀, hb₁, hb₂]
    change 239 = _ ∧ 187 = _ ∧ 191 = _ ↔ _
    unfold MARK
    omega
  · obtain ⟨b₀, b₁, b₂, b₃, he, hb₀, -⟩ := utf8Four_eq (show c < 0x200000 by omega)
    rw [he]
    exact iff_of_false (hlead (by omega)) (by unfold MARK; omega)

/-- No UTF-8 begins as a marker of UTF-16 does. -/
theorem not_prefix_utf8 {c : ℕ} (hc : Scalar c) {b : UInt8} (hb : 0xF8 ≤ b.toNat) (m bs : Bytes) :
    ¬ b :: m <+: utf8 c ++ bs := by
  have hlt := hc.lt
  have hlead : ∀ {b' : UInt8} {rest : Bytes}, b'.toNat < 0xF8 → ¬ b :: m <+: b' :: rest := by
    rintro b' rest hb' ⟨u, hu⟩
    rw [(List.cons.inj hu).1] at hb
    omega
  unfold utf8
  split_ifs with h1 h2 h3
  · obtain ⟨b, he, hb⟩ := utf8One_eq h1
    exact he ▸ hlead (by omega)
  · obtain ⟨b₀, b₁, he, hb₀, -⟩ := utf8Two_eq h2
    exact he ▸ hlead (by omega)
  · obtain ⟨b₀, b₁, b₂, he, hb₀, -⟩ := utf8Three_eq h3
    exact he ▸ hlead (by omega)
  · obtain ⟨b₀, b₁, b₂, b₃, he, hb₀, -⟩ := utf8Four_eq (show c < 0x200000 by omega)
    exact he ▸ hlead (by omega)

theorem head?_wideText {cs : List ℕ} (hcs : ∀ c ∈ cs, Scalar c) :
    (wide.text cs).head? = some MARK ↔ cs.head? = some MARK := by
  cases cs with
  | nil => exact Iff.rfl
  | cons c cs =>
    have hlt := (hcs c List.mem_cons_self).lt
    rw [Wide.text_cons]
    cases wide with
    | utf32 => exact Iff.rfl
    | utf16 =>
      by_cases hc : c < 0x10000
      · rw [Wide.encode, if_pos hc]
        exact Iff.rfl
      · rw [Wide.encode, if_neg hc]
        simp only [List.cons_append, List.head?_cons, Option.some.injEq, MARK]
        omega

/-- **What is found of a text in UTF-8**: it is taken for a marked one if it begins so. -/
theorem detect_toUTF8 (h : WholeText wide text) :
    PROFILE_DetectTextEncoding (toUTF8 wide 0 text) =
      if text.head? = some MARK then (.UTF8, 3) else (.ANSI, 0) := by
  obtain ⟨cs, hcs, rfl⟩ := h
  rw [toUTF8_text wide 0 hcs]
  simp only [head?_wideText hcs]
  cases cs with
  | nil => rfl
  | cons c cs =>
    have hc := hcs c List.mem_cons_self
    unfold PROFILE_DetectTextEncoding bom_utfle bom_utfbe
    simp only [utf8Text_cons, bom_utf8_prefix_iff hc, List.head?_cons, Option.some.injEq,
      not_prefix_utf8 hc (b := 0xFF) (by decide), not_prefix_utf8 hc (b := 0xFE) (by decide),
      if_false]
    rfl

/-- **The encoding that was written is found.** -/
theorem detect_writeFile (h : Encodes wide encoding text) (hmark : Unmarked encoding text) :
    PROFILE_DetectTextEncoding (writeFile wide encoding text) =
      (encoding, (PROFILE_WriteMarker wide encoding).length) := by
  cases encoding with
  | ANSI => exact (detect_toUTF8 h).trans (if_neg (hmark rfl))
  | UTF8 => exact if_pos (List.prefix_append _ _)
  | UTF16LE =>
    obtain ⟨rfl, -⟩ := h
    rfl
  | UTF16BE =>
    obtain ⟨rfl, -⟩ := h
    rfl

theorem writeFile_eq_nil_iff (h : Encodes wide encoding text) :
    writeFile wide encoding text = [] ↔ encoding = .ANSI ∧ text = [] := by
  cases encoding with
  | ANSI =>
    refine ⟨fun hnil => ⟨rfl, ?_⟩, fun hnil => ?_⟩
    · have hread := szFile_PROFILE_WriteLine h
      rw [show PROFILE_WriteLine wide .ANSI text = [] from hnil] at hread
      rw [← hread]
      exact fromUTF8_nil wide 0 _
    · rw [hnil.2]
      cases wide <;> rfl
  | UTF8 => exact iff_of_false (List.cons_ne_nil _ _) fun h => nomatch h.1
  | UTF16LE =>
    obtain ⟨rfl, -⟩ := h
    exact iff_of_false (List.cons_ne_nil _ _) fun h => nomatch h.1
  | UTF16BE =>
    obtain ⟨rfl, -⟩ := h
    exact iff_of_false (List.cons_ne_nil _ _) fun h => nomatch h.1

/-- **A file that holds a text is read as that text**, in the encoding that was written. -/
theorem PROFILE_Load_writeFile (h : Encodes wide encoding text) (hmark : Unmarked encoding text)
    (e : ENCODING) : PROFILE_Load wide e (writeFile wide encoding text) =
      if encoding = .ANSI ∧ text = [] then ([], e) else (loadText text, encoding) := by
  unfold PROFILE_Load
  simp only [writeFile_eq_nil_iff h, detect_writeFile h hmark]
  rw [writeFile, List.drop_left, szFile_PROFILE_WriteLine h]

/-! ### Names and values -/

/-- The name and the value of a key are texts with the property. -/
def KeyParts (P : WString → Prop) (k : PROFILEKEY) : Prop := P k.name ∧ ∀ v ∈ k.value, P v

/-- The name of a section and those of its keys with their values are. -/
def SectionParts (P : WString → Prop) (s : PROFILESECTION) : Prop :=
  P s.name ∧ ∀ k ∈ s.key, KeyParts P k

variable {P : WString → Prop} {line name : WString}

theorem isspaceW_lt (c : ℕ) (h : isspaceW c = true) : c < 0x80 := by
  simp only [isspaceW, Bool.or_eq_true, beq_iff_eq, decide_eq_true_eq] at h
  omega

theorem Textual.str (h : Textual P) (hs : P s) : P (str s) :=
  (h.cut.takeWhile (fun c hc => by
    rw [not_not.1 (of_decide_eq_false hc)]
    decide) hs).1

theorem Textual.sectionName (h : Textual P) (hline : P line)
    (hname : sectionName line = some name) : P name := by
  simp only [Profile.sectionName] at hname
  split at hname
  · next hhead =>
    obtain rfl := Option.some.inj hname
    refine h.str ?_
    have hup : P (line.rdropWhile fun c => c ≠ 0x5d).dropLast :=
      h.cut.dropLast_rdropWhile (fun c hc => by
        rw [not_not.1 (of_decide_eq_false hc)]
        decide) h.nil hline
    -- The header begins with a bracket.
    cases hcase : (line.rdropWhile fun c => c ≠ 0x5d).dropLast with
    | nil => exact h.nil
    | cons c rest =>
      rw [hcase] at hup
      have hc : c = 0x5b := by
        have hprefix := (List.dropLast_prefix _).trans
          (List.rdropWhile_prefix (fun c => decide (c ≠ 0x5d)) line)
        rw [hcase] at hprefix
        obtain ⟨u, rfl⟩ := hprefix
        exact Option.some.inj hhead.1
      exact (h.cut [] c rest (by rw [hc]; decide) hup).2
  · cases hname

theorem Textual.readKey (h : Textual P) (hline : P line) : KeyParts P (readKey line).2 := by
  obtain ⟨htake, hdrop⟩ := h.cut.takeWhile (q := fun c => c ≠ 0x3d) (fun c hc => by
    rw [not_not.1 (of_decide_eq_false hc)]
    decide) hline
  unfold Profile.readKey
  split
  · exact ⟨h.str hline, fun v hv => nomatch hv⟩
  · next c value heq =>
    refine ⟨h.str (h.cut.rdropWhile isspaceW_lt htake), fun v hv => ?_⟩
    obtain rfl := Option.some.inj hv
    exact h.str (h.cut.dropWhile isspaceW_lt (hdrop c value heq))

theorem Textual.build {s : PROFILESECTION} {lines : List WString} (h : Textual P)
    (hs : SectionParts P s) (hlines : ∀ line ∈ lines, P line) :
    ∀ t ∈ build s lines, SectionParts P t := by
  induction lines generalizing s with
  | nil => exact List.forall_mem_singleton.2 hs
  | cons line lines ih =>
    obtain ⟨hline, hrest⟩ := List.forall_mem_cons.1 hlines
    rw [Profile.build]
    cases hname : Profile.sectionName line with
    | some name =>
      refine List.forall_mem_cons.2 ⟨hs, ih ⟨h.sectionName hline hname, ?_⟩ hrest⟩
      exact fun k hk => absurd hk List.not_mem_nil
    | none =>
      refine ih ?_ hrest
      rw [PROFILESECTION.addKey]
      split
      · exact ⟨hs.1, List.forall_mem_append.2
          ⟨hs.2, List.forall_mem_singleton.2 (h.readKey hline)⟩⟩
      · exact hs

/-- **The names and values that are read have the property of the text.** -/
theorem Textual.loadText (h : Textual P) (htext : P text) :
    ∀ t ∈ loadText text, SectionParts P t :=
  h.build ⟨h.nil, fun _ hk => absurd hk List.not_mem_nil⟩ fun _ hline =>
    h.cut.contents isspaceW_of_isEol isspaceW_lt htext hline

theorem Textual.sectionText {s : PROFILESECTION} (h : Textual P) (hs : SectionParts P s) :
    P (sectionText s) := by
  have hlines : ∀ line ∈ sectionLines s, P line := by
    intro line hline
    rcases List.mem_append.1 hline with hline | hline
    · split at hline
      · cases hline
      obtain rfl := List.mem_singleton.1 hline
      exact h.append _ _ (h.append [0x5b] _ (h.singleton _ (by decide)) hs.1)
        (h.singleton _ (by decide))
    · obtain ⟨k, hk, rfl⟩ := List.mem_map.1 hline
      obtain ⟨hname, hvalue⟩ := hs.2 k hk
      refine h.append _ _ hname ?_
      cases hv : k.value with
      | none => exact h.nil
      | some v => exact h.append [0x3d] v (h.singleton _ (by decide)) (hvalue v hv)
  rw [Profile.sectionText]
  revert hlines
  generalize sectionLines s = lines
  intro hlines
  induction lines with
  | nil => exact h.nil
  | cons line lines ih =>
    obtain ⟨hline, hrest⟩ := List.forall_mem_cons.1 hlines
    rw [endLines_cons]
    exact h.append _ _ hline (h.append _ _ (h.append [0x0d] [0x0a] (h.singleton _ (by decide))
      (h.singleton _ (by decide))) (ih hrest))

theorem Textual.saveText (h : Textual P) (htree : ∀ s ∈ tree, SectionParts P s) :
    P (saveText tree) := by
  induction tree with
  | nil => exact h.nil
  | cons s tree ih =>
    obtain ⟨hs, hrest⟩ := List.forall_mem_cons.1 htree
    exact h.append _ _ (h.sectionText hs) (ih hrest)

/-- **A tree is written as its text.** -/
theorem PROFILE_Save_eq (hsup : Supported wide encoding)
    (htree : ∀ s ∈ tree, SectionParts (Encodes wide encoding) s) :
    PROFILE_Save wide encoding tree = writeFile wide encoding (saveText tree) := by
  have hline : (tree.flatMap fun s => PROFILE_WriteLine wide encoding (sectionText s)) =
      PROFILE_WriteLine wide encoding (saveText tree) := by
    induction tree with
    | nil => cases encoding <;> cases wide <;> rfl
    | cons s tree ih =>
      obtain ⟨hs, hrest⟩ := List.forall_mem_cons.1 htree
      rw [List.flatMap_cons, ih hrest]
      exact (PROFILE_WriteLine_append (hsup.textual.sectionText hs)
        (hsup.textual.saveText hrest)).symm
  rw [PROFILE_Save, hline, writeFile]

/-! ### Reading, writing and reading -/

/-- **A text that loses its first character is read as another tree**: its lines are shorter. -/
theorem loadText_rest_ne {c : ℕ} {rest : WString} (hclean : Clean tree)
    (h : saveText tree = c :: rest) : loadText rest ≠ tree := by
  have hlines := lineClean_of_clean hclean
  rw [saveText_eq] at h
  have hle := length_build_le ⟨[], []⟩ (contents isEol isspaceW rest)
  intro heq
  rw [show build ⟨[], []⟩ (contents isEol isspaceW rest) = tree from heq] at hle
  generalize tree.flatMap sectionLines = lines at h hlines hle
  cases lines with
  | nil => cases h
  | cons line lines =>
    obtain ⟨⟨hplain, hne, -⟩, hrest⟩ := List.forall_mem_cons.1 hlines
    obtain ⟨c', line, rfl⟩ := List.exists_cons_of_ne_nil hne
    rw [endLines_cons, List.cons_append] at h
    obtain ⟨rfl, rfl⟩ := List.cons.inj h
    have hplain' : Plain line := hplain.subset fun c hc => List.mem_cons_of_mem _ hc
    have htrim : (trim isspaceW line).length ≤ line.length :=
      (List.rdropWhile_prefix _ _).length_le.trans (List.dropWhile_sublist _).length_le
    rw [contents_cons hplain', contents_endLines hrest] at hle
    have hfirst : (if trim isspaceW line = [] then [] else [trim isspaceW line]).flatten.length ≤
        line.length := by
      split_ifs
      · exact Nat.zero_le _
      · rwa [List.flatten_singleton]
    simp only [sectionLines, if_true, List.map_nil, List.append_nil, List.flatten_nil,
      List.length_nil, List.flatten_append, List.flatten_cons, List.length_append,
      List.length_cons] at hle hfirst
    omega

/-- **A file is written back as it was read**: every header has a name, and without a marker it is
not made of blank lines, and its first character is not the marker once the blank lines are gone. -/
structure RoundTrips (tree : List PROFILESECTION) (encoding : ENCODING) : Prop where
  named : ∀ s ∈ tree.tail, s.name ≠ []
  notBlank : encoding = .ANSI → tree ≠ [⟨[], []⟩]
  unmarked : Unmarked encoding (saveText tree)

theorem writeFile_marked {rest : WString} (h : Encodes wide .ANSI (MARK :: rest)) :
    writeFile wide .ANSI (MARK :: rest) = writeFile wide .UTF8 rest ∧ Encodes wide .UTF8 rest := by
  have hrest : WholeText wide rest := by
    obtain ⟨cs, hcs, heq⟩ := h
    have hhead : cs.head? = some MARK := (head?_wideText hcs).1 (by rw [← heq]; rfl)
    obtain ⟨ds, rfl⟩ := List.head?_eq_some_iff.1 hhead
    refine ⟨ds, (List.forall_mem_cons.1 hcs).2, ?_⟩
    have hone : wide.encode MARK = [MARK] := by cases wide <;> rfl
    rw [Wide.text_cons, hone] at heq
    exact (List.cons.inj heq).2
  have hmark : WholeText wide [MARK] := by
    refine ⟨[MARK], List.forall_mem_singleton.2 (.inr (by decide)), ?_⟩
    cases wide <;> rfl
  have happend : PROFILE_WriteLine wide .ANSI ([MARK] ++ rest) = _ :=
    PROFILE_WriteLine_append hmark hrest
  refine ⟨?_, hrest⟩
  rw [writeFile, writeFile, PROFILE_WriteMarker, List.nil_append]
  refine happend.trans (congrArg (· ++ _) ?_)
  cases wide <;> decide

/-- **Which files are read back once they were read and written.** -/
theorem load_save_load_iff {file : Bytes} (hfile : Holds wide file encoding text)
    (htext : 0 ∉ text) {tree : List PROFILESECTION} {found : ENCODING}
    (hload : PROFILE_Load wide .ANSI file = (tree, found)) :
    ((PROFILE_Load wide .ANSI (PROFILE_Save wide found tree)).1 = tree ↔
        RoundTrips tree found) ∧
      (RoundTrips tree found →
        (PROFILE_Load wide .ANSI (PROFILE_Save wide found tree)).2 = found) := by
  have hsup := hfile.encodes.supported
  rw [hfile.file, PROFILE_Load_writeFile hfile.encodes hfile.unmarked] at hload
  by_cases hempty : encoding = .ANSI ∧ text = []
  · -- An empty file has no sections, and stays empty.
    rw [if_pos hempty] at hload
    obtain ⟨rfl, rfl⟩ := Prod.mk.inj hload
    have htrips : RoundTrips [] .ANSI :=
      ⟨fun s hs => absurd hs List.not_mem_nil, fun _ => by decide, fun _ => by decide⟩
    exact ⟨iff_of_true rfl htrips, fun _ => rfl⟩
  rw [if_neg hempty] at hload
  obtain ⟨htree, rfl⟩ := Prod.mk.inj hload
  have hclean : Clean tree := htree ▸ clean_load htext
  have hparts : ∀ s ∈ tree, SectionParts (Encodes wide encoding) s :=
    htree ▸ hsup.textual.loadText hfile.encodes
  have hencodes := hsup.textual.saveText hparts
  have hiff := loadText_saveText_iff htext
  rw [htree] at hiff
  have hsave : saveText tree = [] → tree ≠ [⟨[], []⟩] → ¬ ∀ s ∈ tree.tail, s.name ≠ [] := by
    intro hnil hne hnamed
    have hback := hiff.2 hnamed
    rw [hnil, loadText, contents_nil] at hback
    exact hne hback.symm
  rw [PROFILE_Save_eq hsup hparts]
  by_cases hmark : Unmarked encoding (saveText tree)
  · rw [PROFILE_Load_writeFile hencodes hmark]
    by_cases hblank : encoding = .ANSI ∧ saveText tree = []
    · rw [if_pos hblank]
      obtain ⟨first, rest, hcons⟩ := loadText_eq_cons text
      have hne : tree ≠ [] := by
        rw [← htree, hcons]
        exact List.cons_ne_nil _ _
      refine ⟨iff_of_false (Ne.symm hne) fun h => ?_, fun _ => hblank.1.symm⟩
      exact hsave hblank.2 (h.notBlank hblank.1) h.named
    · rw [if_neg hblank]
      refine ⟨hiff.trans ⟨fun hnamed => ⟨hnamed, fun hansi heq => ?_, hmark⟩, fun h => h.named⟩,
        fun _ => rfl⟩
      exact hblank ⟨hansi, by rw [heq]; rfl⟩
  · -- The file begins with the marker, and is taken for a marked one.
    obtain ⟨hansi, hhead⟩ := Classical.not_imp.1 hmark
    obtain ⟨rest, hrest⟩ := List.head?_eq_some_iff.1 (not_not.1 hhead)
    subst hansi
    rw [hrest] at hencodes ⊢
    obtain ⟨hfile, hutf8⟩ := writeFile_marked hencodes
    rw [hfile, PROFILE_Load_writeFile hutf8 (fun h => by cases h), if_neg fun h => by cases h.1]
    exact ⟨iff_of_false (loadText_rest_ne hclean hrest) fun h => hmark h.unmarked,
      fun h => absurd h.unmarked hmark⟩

/-- `[a]`, `k = v ` and `q`. -/
def sampleText : WString :=
  [0x5b, 0x61, 0x5d, 0x0a, 0x6b, 0x20, 0x3d, 0x20, 0x76, 0x20, 0x0d, 0x0a, 0x71]

/-- A section, a value with spaces around it and a key without a value, behind a marker. -/
theorem load_save_load_sample :
    ((PROFILE_Load .utf32 .ANSI (PROFILE_Save .utf32 .UTF8 (loadText sampleText))).1 =
        loadText sampleText ↔ RoundTrips (loadText sampleText) .UTF8) ∧
      (RoundTrips (loadText sampleText) .UTF8 →
        (PROFILE_Load .utf32 .ANSI (PROFILE_Save .utf32 .UTF8 (loadText sampleText))).2 =
          .UTF8) := by
  have hencodes : Encodes .utf32 .UTF8 sampleText :=
    ⟨sampleText, fun c hc => .inl ((by decide : ∀ c ∈ sampleText, c < 0xD800) c hc), rfl⟩
  have hmark : Unmarked .UTF8 sampleText := fun h => nomatch h
  refine load_save_load_iff ⟨hencodes, hmark, by decide, rfl⟩ (by decide) ?_
  exact PROFILE_Load_writeFile hencodes hmark .ANSI

end Profile

end Swinx
