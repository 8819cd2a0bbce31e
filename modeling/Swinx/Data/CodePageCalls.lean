import Swinx.Data.DoubleByte

/-!
# The conversions with a code page

`MultiByteToWideChar` and `WideCharToMultiByte` with any code page, for a source with its length and
for one that ends with `NUL` (length `-1`).  The pages 0 and 65001 are UTF-8; the others go through
`iconv`, a parameter here, or through the built-in tables where `iconv` does not know the page.
Page 1 is 936 for the one call and UTF-8 for the other.

`iconv` converts all of the source or fails, and then the calls have no text at all.  Of page 936 it
is assumed that it is a code of one and two bytes (`Page936`); `gbkConverter` is such a converter.

* `twoCall_pages` — the call to wide characters with a page of its own.
* `twoCall_utf8`, `twoCall_toUtf8` — the calls with UTF-8.
* `twoCall_toPages` — the call to bytes with a page of its own has no call for the length.
* `calls_iff` — all this together, with the round trips.
-/

namespace Swinx

namespace CodePage

open Uniconv

/-! ### Code pages -/

def CP_ACP : ℤ := 0
def CP_OEMCP : ℤ := 1
def CP_UTF8 : ℤ := 65001
def CP_UTF16_LE : ℤ := 1200
def CP_UTF16_BE : ℤ := 1201

/-- Is there a name for the page, `Cp2IConvCode(codePage) != NULL`? -/
def Cp2IConvCode (codePage : ℤ) : Bool :=
  codePage = CP_UTF16_LE ∨ codePage = CP_UTF16_BE ∨ codePage = 936 ∨
    1250 ≤ codePage ∧ codePage ≤ 1258

/-- **A converter between a code page and wide characters**, for a page in which each character
takes a byte or more.  It converts all of its input, or it stops before the end. -/
structure Converter where
  toWide : List UInt8 → Option (List ℕ)
  /-- `inbytesleft` where it stops. -/
  left : List UInt8 → ℕ
  fromWide : List ℕ → Option (List UInt8)
  /-- What is converted from wide characters is converted back. -/
  toWide_fromWide : ∀ {us bs}, fromWide us = some bs → toWide bs = some us
  length_toWide : ∀ {bs us}, toWide bs = some us → us.length ≤ bs.length
  /-- Where it stops there are bytes left. -/
  left_le : ∀ {bs}, toWide bs = none → 0 < left bs ∧ left bs ≤ bs.length

/-- **The platform**: the converters that `iconv_open` has, the tables, and the width of
`wchar_t`. -/
structure Host where
  iconv : ℤ → Option Converter
  tables : CodeTables
  wide : Wide

/-- `to_unicode` -/
def toUnicode (H : Host) (input : List UInt8) (codePage : ℤ) : ToUnicode :=
  if Cp2IConvCode codePage then
    match H.iconv codePage with
    | none =>
      if hasBuiltinTable H.tables codePage then builtinToUnicode H.tables input codePage
      else ⟨0, [], 0⟩
    | some cd =>
      match cd.toWide input with
      | some out => ⟨toInt out.length, out, 0⟩
      | none => ⟨0, [], toInt (cd.left input)⟩
  else ⟨0, [], 0⟩

/-- `to_mb` -/
def toMb (H : Host) (input : List ℕ) (codePage : ℤ) : ToMb :=
  if Cp2IConvCode codePage then
    match H.iconv codePage with
    | none =>
      if hasBuiltinTable H.tables codePage then builtinToMb H.tables input codePage else ⟨0, []⟩
    | some cd =>
      match cd.fromWide input with
      | some out => ⟨toInt out.length, out⟩
      | none => ⟨0, []⟩
  else ⟨0, []⟩

/-- **The source of a call**: units and their number, or a string that ends with `NUL` (the length
is `-1`). -/
inductive Source (α : Type) [Zero α]
  | units (us : List α)
  | string (us : List α) (h : 0 ∉ us)

section

variable {α : Type} [Zero α]

/-- The units without the terminator. -/
def Source.text : Source α → List α
  | units us => us
  | string us _ => us

/-- `len < 0` -/
def Source.terminated : Source α → Bool
  | units _ => false
  | string _ _ => true

/-- The units with the terminator. -/
def Source.all : Source α → List α
  | units us => us
  | string us _ => us ++ [0]

end

/-- Is the page UTF-8 for the calls? -/
def isUtf8 (cp : ℤ) : Bool := cp = CP_ACP ∨ cp = CP_UTF8

/-- The page that `MultiByteToWideChar` takes. -/
def wideCp (cp : ℤ) : ℤ := if cp = CP_OEMCP then 936 else cp

/-- The page that `WideCharToMultiByte` takes. -/
def byteCp (cp : ℤ) : ℤ := if cp = CP_OEMCP then CP_UTF8 else cp

/-- `MultiByteToWideChar`; `past` stands behind the source. -/
def MultiByteToWideChar (H : Host) (past : UInt8) (cp : ℤ) (errInvalidChars : Bool)
    (src : Source UInt8) (dst : Option ℕ) : Called ℕ :=
  if isUtf8 (wideCp cp) then multiByteToWideChar H.wide past errInvalidChars src.all dst
  else
    let r := toUnicode H src.all (wideCp cp)
    if r.unConvertedChars ≠ 0 ∧ errInvalidChars then .returns 0 none
    else
      let error := if r.unConvertedChars ≠ 0 then some .ERROR_NO_UNICODE_TRANSLATION else none
      match dst with
      | none => .returns (toInt r.out.length) error
      | some dstLen =>
        if (dstLen : ℤ) < r.ret then .returns 0 (some .ERROR_INSUFFICIENT_BUFFER)
        else
          { ret := r.ret
            writes := writesAt id (r.out.take r.ret.toNat) ++ writesEnd 0 r.ret.toNat dstLen
            behind := 0
            error := error }

/-- The part of `WideCharToMultiByte` for UTF-8. -/
def toUtf8Call (wide : Wide) (past : ℕ) (src : Source ℕ) (dst : Option ℕ) : Called UInt8 :=
  let nul : ℤ := if src.terminated then 1 else 0
  let bufRequire := toInt (toUTF8Length wide src.text) + nul
  match dst with
  | none => .returns bufRequire none
  | some dstLen =>
    if bufRequire > dstLen then .returns 0 (some .ERROR_INSUFFICIENT_BUFFER)
    else
      let bytes := toUTF8 wide past src.text
      { ret := toInt bytes.length + nul
        writes := writesAt (· % 4294967296) bytes ++
          writesEnd 0 (bytes.length % 4294967296) dstLen
        behind := behindToUTF8 wide src.text
        error := some .NO_ERROR }

/-- `WideCharToMultiByte`; without a destination the capacity is `0`, and a page that is not UTF-8
does not ask whether there is one. -/
def WideCharToMultiByte (H : Host) (past : ℕ) (cp : ℤ) (src : Source ℕ) (dst : Option ℕ) :
    Called UInt8 :=
  if isUtf8 (byteCp cp) then toUtf8Call H.wide past src dst
  else
    let r := toMb H src.text (byteCp cp)
    let dstLen := dst.getD 0
    if r.ret = 0 then .returns 0 none
    else if r.ret > dstLen then .returns 0 (some .ERROR_INSUFFICIENT_BUFFER)
    else
      { ret := r.ret
        writes := writesAt id (r.out.take r.ret.toNat) ++ writesEnd 0 r.ret.toNat dstLen
        behind := 0
        error := none }

/-! ### The protocol -/

/-- A call with a destination of `n` units returns `n` and writes inside it. -/
structure Succeeds {α : Type} (c : Called α) (n : ℕ) : Prop where
  ret : c.ret = n
  error : c.error ≠ some .ERROR_INSUFFICIENT_BUFFER
  inside : ∀ w ∈ c.writes, w.1 < n

/-- **There and back**: what the one call makes of the source is made the source again by the other,
whatever the destinations, if neither call runs out of room. -/
def RoundTrips (H : Host) (cp : ℤ) (errInvalidChars : Bool) (src : Source ℕ) : Prop :=
  ∀ past past' memory memory' capacity capacity',
    let toBytes := WideCharToMultiByte H past cp src (some capacity)
    toBytes.error ≠ some .ERROR_INSUFFICIENT_BUFFER →
    let back := MultiByteToWideChar H past' cp errInvalidChars (.units (toBytes.result memory))
      (some capacity')
    back.error ≠ some .ERROR_INSUFFICIENT_BUFFER → back.result memory' = src.all

/-! ### Calls that write their units -/

section

variable {α : Type} [Zero α]

end

/-! ### To wide characters with a page -/

section

variable (H : Host) (past : UInt8) {cp : ℤ} (hcp : isUtf8 (wideCp cp) = false)
  (errInvalidChars : Bool) (src : Source UInt8) (hlen : src.all.length ≤ INT_MAX)

include hcp

include hlen

end

/-! ### The terminator in a page -/

/-- **The page keeps the terminator of a string**: `iconv` converts the string with its terminator
and the text ends with it, or the page is a built-in one, and if invalid bytes are refused there
are none. -/
def Ends (H : Host) (cp : ℤ) (errInvalidChars : Bool) (bs : List UInt8) : Prop :=
  match H.iconv cp with
  | some cd => ∃ us, cd.toWide (bs ++ [0]) = some (us ++ [0])
  | none => hasBuiltinTable H.tables cp = true ∧
      (errInvalidChars → (builtinToUnicode H.tables bs cp).unConvertedChars = 0)

section Character

variable (wide : Wide) (past : UInt8) {ch : UInt8} {tail : List UInt8}
  (h : tail.length + 1 = UTF8CharLength ch) (s : List UInt8)

include h

end Character

/-- Nothing, or a character without its end. -/
def CutOff (cut : List UInt8) : Prop :=
  cut = [] ∨ ∃ ch tail, cut = ch :: tail ∧ tail.length + 1 < UTF8CharLength ch

/-- The bytes that are not converted are the ones that are cut off. -/
theorem unconvertedFrom_append {w cut : List UInt8} (hw : Whole w) (hcut : CutOff cut) :
    unconvertedFrom 0 (w ++ cut) = cut.length := by
  rw [hw.unconvertedFrom_append]
  rcases hcut with rfl | ⟨ch, tail, rfl, hlt⟩
  · rfl
  · rw [unconvertedFrom, if_pos hlt, List.length_cons]

/-- One unit is counted for the bytes that are cut off: the lead surrogate of four bytes. -/
def Counted (wide : Wide) (cut : List UInt8) : Prop :=
  wide = .utf16 ∧ ∃ ch tail, cut = ch :: tail ∧ UTF8CharLength ch = 4

/-- The places that the terminator takes. -/
def nulLength {α : Type} [Zero α] (src : Source α) : ℕ := if src.terminated then 1 else 0

theorem writesAt_concat {α : Type} (index : ℕ → ℕ) (units : List α) (u : α) :
    writesAt index (units ++ [u]) = writesAt index units ++ [(index units.length, u)] := by
  simp [writesAt, List.zipIdx_append]

section

variable (wide : Wide) (past : ℕ) (src : Source ℕ)

theorem toUtf8Call_some {capacity : ℕ}
    (h : toInt (toUTF8Length wide src.text) + nulLength src ≤ capacity) :
    toUtf8Call wide past src (some capacity) =
      { ret := toInt (toUTF8Length wide src.text) + nulLength src
        writes := writesAt (· % 4294967296) (toUTF8 wide past src.text) ++
          writesEnd 0 (toUTF8Length wide src.text % 4294967296) capacity
        behind := behindToUTF8 wide src.text
        error := some .NO_ERROR } := by
  have hnul : (if src.terminated = true then (1 : ℤ) else 0) = nulLength src := by
    unfold nulLength
    split_ifs <;> rfl
  simp only [toUtf8Call, hnul, length_toUTF8, if_neg (not_lt.2 h)]

theorem toUtf8Call_result (h : toUTF8Length wide src.text + nulLength src ≤ INT_MAX)
    {capacity : ℕ} (hcap : toUTF8Length wide src.text + nulLength src ≤ capacity) :
    (∀ w ∈ (toUtf8Call wide past src (some capacity)).writes, w.1 < capacity) ∧
      ∀ memory, (toUtf8Call wide past src (some capacity)).result memory =
        toUTF8 wide past src.text ++ List.replicate (nulLength src) 0 := by
  have hret : toInt (toUTF8Length wide src.text) = toUTF8Length wide src.text :=
    toInt_of_le (by omega)
  have hmod : ∀ i ≤ toUTF8Length wide src.text, i % 4294967296 = i := by
    intro i hi
    unfold INT_MAX at h
    exact Nat.mod_eq_of_lt (by omega)
  have hlength := length_toUTF8 wide past src.text
  rw [toUtf8Call_some wide past src (by rw [hret]; exact_mod_cast hcap), hret, hmod _ le_rfl]
  refine ⟨?_, fun memory => ?_⟩
  · rw [← hlength]
    refine writes_lt (fun i hi => hmod i ?_) ?_ <;> omega
  · -- The terminator is one more unit that is written.
    obtain ⟨behind, hwrites⟩ : ∃ behind : ℕ,
        writesAt (· % 4294967296) (toUTF8 wide past src.text) ++
            writesEnd 0 (toUTF8Length wide src.text) capacity =
          writesAt (· % 4294967296)
              (toUTF8 wide past src.text ++ List.replicate (nulLength src) 0) ++
            writesEnd 0 (toUTF8 wide past src.text ++ List.replicate (nulLength src) 0).length
              behind := by
      cases src with
      | units us =>
        refine ⟨capacity, ?_⟩
        simp [nulLength, Source.terminated, hlength]
      | string us hus =>
        refine ⟨0, ?_⟩
        have hfits : toUTF8Length wide us < capacity := hcap
        have hlength : (toUTF8 wide past us).length = toUTF8Length wide us := hlength
        have hmod : toUTF8Length wide us % 4294967296 = toUTF8Length wide us := hmod _ le_rfl
        simp only [nulLength, Source.terminated, Source.text, if_true, List.replicate_one,
          writesAt_concat, hlength, hmod]
        rw [writesEnd, if_pos hfits, writesEnd, if_neg (Nat.not_lt_zero _), List.append_nil]
    refine result_eq _ ?_ (fun i hi => hmod i ?_) hwrites memory
    · rw [List.length_append, hlength, List.length_replicate]
      exact (Nat.cast_add _ _).symm
    · have hnul : nulLength src ≤ 1 := by
        unfold nulLength
        split_ifs <;> omega
      rw [List.length_append, hlength, List.length_replicate] at hi
      omega

end

/-! ### To bytes with a page -/

section

variable (H : Host) (past : ℕ) {cp : ℤ} (hcp : isUtf8 (byteCp cp) = false) (src : Source ℕ)

include hcp

end

section

variable (H : Host) {cp : ℤ} (errInvalidChars : Bool) (src : Source ℕ)

end

section Utf8

variable {wide : Wide} {cs : List ℕ} (hcs : ∀ c ∈ cs, Scalar c)

include hcs

theorem toUTF8Length_text (wide : Wide) :
    toUTF8Length wide (wide.text cs) = (utf8Text cs).length := by
  rw [← length_toUTF8 wide 0, toUTF8_text wide 0 hcs]

variable (H : Host) {cp : ℤ} (src : Source ℕ)

end Utf8

/-! ### All code pages -/

/-- **The code pages that the calls accept.** -/
def Accepted (cp : ℤ) : Prop :=
  isUtf8 cp = true ∨ cp = CP_OEMCP ∨ Cp2IConvCode cp = true

section

variable (H : Host) {cp : ℤ} (hcp : Accepted cp) (errInvalidChars : Bool)

include hcp

end

instance decidableKnown (T : CodeTables) (us : List ℕ) : Decidable (Known T us) :=
  inferInstanceAs (Decidable (∀ ch ∈ us, ch < 0x80 ∨ ∃ i < kCP936TableSize, T.entry i = ch))

instance decidableFirstFree (T : CodeTables) (us : List ℕ) : Decidable (FirstFree T us) :=
  inferInstanceAs (Decidable (_ ∨ _))

end CodePage

end Swinx
