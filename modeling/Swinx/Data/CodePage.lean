import Swinx.Data.ReverseIndex
import Swinx.Data.UniconvCalls

/-!
# The built-in code pages

Where `iconv` does not know a code page the conversions use tables of their own: for 936 a table of
the pairs of bytes, for 1250 to 1258 a table of the upper half.  An entry `0` is an undefined code.
Of the tables nothing else is assumed.

A byte that does not begin a pair of the table becomes `U+FFFD`, and the next byte begins anew.  A
character that has no pair becomes `?`.  `cp936Encode` returns the place of a character in the
table, and `0` when there is none: the character at the place `0` is taken for one that has none.

* `cp936ToUnicode_eq` — the decoder works piece by piece.
* `cp936ToUnicode_cp936ToMb` — what the encoder makes of any text is decoded without an error.
* `codec_iff` — texts are kept if and only if they have not the character at the place `0`.
-/

namespace Swinx

namespace CodePage

open ReverseIndex (pack packed lowerBound)
open Uniconv (INT_MAX toInt)

/-! ### The tables -/

def kCP936LeadFirst : ℕ := 0x81
def kCP936LeadLast : ℕ := 0xFE
def kCP936TrailCount : ℕ := 190
def kCP936TableSize : ℕ := (kCP936LeadLast - kCP936LeadFirst + 1) * kCP936TrailCount

/-- The tables of the file. -/
structure CodeTables where
  kCP936ToUnicode : ℕ → UInt16
  /-- `kCP1250ToUnicode` to `kCP1258ToUnicode`, by their number. -/
  kCP125xToUnicode : ℤ → ℕ → UInt16

def builtinSingleByteTable (T : CodeTables) (codePage : ℤ) : Option (ℕ → UInt16) :=
  if 1250 ≤ codePage ∧ codePage ≤ 1258 then some (T.kCP125xToUnicode codePage) else none

def hasBuiltinTable (T : CodeTables) (codePage : ℤ) : Bool :=
  codePage = 936 ∨ (builtinSingleByteTable T codePage).isSome

/-- The entry of the table of 936, as a number. -/
def CodeTables.entry (T : CodeTables) (i : ℕ) : ℕ := (T.kCP936ToUnicode i).toNat

theorem CodeTables.entry_lt (T : CodeTables) (i : ℕ) : T.entry i < 65536 :=
  (T.kCP936ToUnicode i).toNat_lt

/-! ### To wide characters -/

/-- The number of a trail byte; the source has `-1` for a byte that is none. -/
def cp936TrailIndex (c : UInt8) : Option ℕ :=
  if 0x40 ≤ c.toNat ∧ c.toNat ≤ 0x7E then some (c.toNat - 0x40)
  else if 0x80 ≤ c.toNat ∧ c.toNat ≤ 0xFE then some (c.toNat - 0x80 + 63)
  else none

/-- The place of a pair of bytes in the table. -/
def cp936Index (c d : UInt8) : Option ℕ :=
  match cp936TrailIndex d with
  | none => none
  | some trail =>
    if kCP936LeadFirst ≤ c.toNat ∧ c.toNat ≤ kCP936LeadLast then
      some ((c.toNat - kCP936LeadFirst) * kCP936TrailCount + trail)
    else none

/-- What the table has for a pair of bytes, `0` when it is none. -/
def cp936Pair (T : CodeTables) (c d : UInt8) : ℕ :=
  match cp936Index c d with
  | none => 0
  | some i => T.entry i

/-- The text and the number of bytes that are not converted, by the loop for 936. -/
def cp936ToUnicode (T : CodeTables) : List UInt8 → List ℕ × ℕ
  | [] => ([], 0)
  | [c] => if c.toNat < 0x80 then ([c.toNat], 0) else ([0xFFFD], 1)
  | c :: d :: s =>
    if c.toNat < 0x80 then
      let r := cp936ToUnicode T (d :: s)
      (c.toNat :: r.1, r.2)
    else if cp936Pair T c d ≠ 0 then
      let r := cp936ToUnicode T s
      (cp936Pair T c d :: r.1, r.2)
    else
      let r := cp936ToUnicode T (d :: s)
      (0xFFFD :: r.1, r.2 + 1)

/-- A byte by the table of a single-byte page. -/
def singleByteChar (table : ℕ → UInt16) (c : UInt8) : ℕ :=
  if c.toNat < 0x80 then c.toNat
  else if table (c.toNat - 0x80) = 0 then 0xFFFD
  else (table (c.toNat - 0x80)).toNat

/-- Is the byte not defined in the page? -/
def singleByteUndefined (table : ℕ → UInt16) (c : UInt8) : Bool :=
  ¬ c.toNat < 0x80 ∧ table (c.toNat - 0x80) = 0

/-- The result, the text and `unConvertedChars` of a conversion to wide characters. -/
structure ToUnicode where
  ret : ℤ
  out : List ℕ
  unConvertedChars : ℤ
  deriving DecidableEq, Repr

/-- A text and the number of bytes that are not converted, as the function returns them. -/
def ToUnicode.of (out : List ℕ) (unconverted : ℕ) : ToUnicode :=
  ⟨toInt out.length, out, toInt unconverted⟩

def builtinToUnicode (T : CodeTables) (input : List UInt8) (codePage : ℤ) : ToUnicode :=
  if codePage = 936 then
    .of (cp936ToUnicode T input).1 (cp936ToUnicode T input).2
  else
    match builtinSingleByteTable T codePage with
    | none => ⟨0, [], 0⟩
    | some table =>
      .of (input.map (singleByteChar table)) (input.countP (singleByteUndefined table))

/-! ### To bytes -/

/-- `cp936ReverseMap` -/
def cp936ReverseMap (T : CodeTables) : List ℕ := packed kCP936TableSize T.entry

/-- The place of a character in the table, or the character itself when it is in the ASCII part.
`ch << 16` keeps 32 bits. -/
def cp936Encode (T : CodeTables) (ch : ℕ) : ℕ :=
  if ch < 0x80 then ch
  else
    match lowerBound ((ch <<< 16) % 4294967296) (cp936ReverseMap T) with
    | none => 0
    | some it => if it >>> 16 = ch then it &&& 0xFFFF else 0

/-- The trail byte with a number. -/
def cp936TrailByte (trail : ℕ) : UInt8 :=
  UInt8.ofNat (if trail < 63 then 0x40 + trail else 0x80 + trail - 63)

/-- The pair of bytes of a place of the table. -/
def cp936Bytes (idx : ℕ) : List UInt8 :=
  [UInt8.ofNat (kCP936LeadFirst + idx / kCP936TrailCount), cp936TrailByte (idx % kCP936TrailCount)]

/-- `'?'` -/
def replacement : UInt8 := 0x3F

/-- The bytes of one character in 936. -/
def cp936Char (T : CodeTables) (ch : ℕ) : List UInt8 :=
  if ch < 0x80 then [UInt8.ofNat ch]
  else if cp936Encode T ch = 0 then [replacement]
  else cp936Bytes (cp936Encode T ch)

/-- The bytes of a text, by the loop for 936. -/
def cp936ToMb (T : CodeTables) (input : List ℕ) : List UInt8 := input.flatMap (cp936Char T)

/-- The byte of one character in a single-byte page: the first place of the table with it. -/
def singleByteOf (table : ℕ → UInt16) (ch : ℕ) : UInt8 :=
  if ch < 0x80 then UInt8.ofNat ch
  else
    match (List.range 128).find? fun b => (table b).toNat = ch with
    | some b => UInt8.ofNat (0x80 + b)
    | none => replacement

/-- The result and the bytes of a conversion to bytes. -/
structure ToMb where
  ret : ℤ
  out : List UInt8
  deriving DecidableEq, Repr

def builtinToMb (T : CodeTables) (input : List ℕ) (codePage : ℤ) : ToMb :=
  if codePage = 936 then ⟨toInt (cp936ToMb T input).length, cp936ToMb T input⟩
  else
    match builtinSingleByteTable T codePage with
    | none => ⟨0, []⟩
    | some table => ⟨toInt input.length, input.map (singleByteOf table)⟩

/-! ### Pieces -/

/-- A piece of a string of bytes. -/
inductive Piece
  | ascii (c : UInt8)
  | pair (c d : UInt8)
  /-- A byte that cannot be decoded. -/
  | bad (c : UInt8)
  deriving DecidableEq, Repr

/-- The bytes of a piece. -/
def Piece.bytes : Piece → List UInt8
  | ascii c => [c]
  | pair c d => [c, d]
  | bad c => [c]

/-- The character of a piece. -/
def Piece.char (T : CodeTables) : Piece → ℕ
  | ascii c => c.toNat
  | pair c d => cp936Pair T c d
  | bad _ => 0xFFFD

/-- Is the piece a byte that cannot be decoded? -/
def Piece.isBad : Piece → Bool
  | bad _ => true
  | _ => false

@[simp] theorem Piece.isBad_ascii (c : UInt8) : (ascii c).isBad = false := rfl

@[simp] theorem Piece.isBad_pair (c d : UInt8) : (pair c d).isBad = false := rfl

@[simp] theorem Piece.isBad_bad (c : UInt8) : (bad c).isBad = true := rfl

/-- A string of bytes in pieces. -/
def pieces (T : CodeTables) : List UInt8 → List Piece
  | [] => []
  | [c] => [if c.toNat < 0x80 then .ascii c else .bad c]
  | c :: d :: s =>
    if c.toNat < 0x80 then .ascii c :: pieces T (d :: s)
    else if cp936Pair T c d ≠ 0 then .pair c d :: pieces T s
    else .bad c :: pieces T (d :: s)

section

variable {T : CodeTables}

/-- **The decoder works piece by piece.** -/
theorem cp936ToUnicode_eq (bs : List UInt8) :
    cp936ToUnicode T bs =
      ((pieces T bs).map (Piece.char T), (pieces T bs).countP Piece.isBad) := by
  fun_induction cp936ToUnicode T bs with
  | case1 => rfl
  | case2 c hc => simp [pieces, hc, Piece.char]
  | case3 c hc => simp [pieces, hc, Piece.char]
  | case4 c d s hc r ih => simp [pieces, hc, r, ih, Piece.char]
  | case5 c d s hc hp r ih => simp [pieces, hc, hp, r, ih, Piece.char]
  | case6 c d s hc hp r ih =>
    have hp : cp936Pair T c d = 0 := not_not.1 hp
    have hcount := List.countP_cons_of_pos (l := pieces T (d :: s)) (Piece.isBad_bad c)
    simp [pieces, hc, hp, r, ih, Piece.char, hcount]

theorem pieces_bytes (bs : List UInt8) : (pieces T bs).flatMap Piece.bytes = bs := by
  fun_induction pieces T bs with
  | case1 => rfl
  | case2 c =>
    rw [List.flatMap_singleton]
    split_ifs <;> rfl
  | case3 c d s hc ih => rw [List.flatMap_cons, ih, Piece.bytes, List.singleton_append]
  | case4 c d s hc hp ih => rw [List.flatMap_cons, ih, Piece.bytes, List.cons_append,
      List.singleton_append]
  | case5 c d s hc hp ih => rw [List.flatMap_cons, ih, Piece.bytes, List.singleton_append]

theorem cp936ToUnicode_ascii {c : UInt8} (hc : c.toNat < 0x80) (s : List UInt8) :
    cp936ToUnicode T (c :: s) =
      (c.toNat :: (cp936ToUnicode T s).1, (cp936ToUnicode T s).2) := by
  cases s with
  | nil => simp only [cp936ToUnicode, hc, if_true]
  | cons d s => simp only [cp936ToUnicode, hc, if_true]

theorem cp936ToUnicode_pair {c d : UInt8} (hc : ¬ c.toNat < 0x80) (hp : cp936Pair T c d ≠ 0)
    (s : List UInt8) :
    cp936ToUnicode T (c :: d :: s) =
      (cp936Pair T c d :: (cp936ToUnicode T s).1, (cp936ToUnicode T s).2) := by
  simp only [cp936ToUnicode, hc, if_false, ne_eq, hp, not_false_eq_true, if_true]

/-! ### The places of the table -/

theorem cp936TrailIndex_lt {c : UInt8} {trail : ℕ} (h : cp936TrailIndex c = some trail) :
    trail < kCP936TrailCount := by
  unfold cp936TrailIndex at h
  unfold kCP936TrailCount
  split_ifs at h <;> injection h <;> omega

theorem cp936Index_lt {c d : UInt8} {i : ℕ} (h : cp936Index c d = some i) :
    i < kCP936TableSize := by
  unfold cp936Index at h
  split at h
  · exact absurd h (by simp)
  · next trail htrail =>
    have hlt := cp936TrailIndex_lt htrail
    split_ifs at h with hlead
    obtain ⟨-, hlast⟩ := hlead
    injection h with h
    simp only [kCP936TableSize, kCP936LeadFirst, kCP936LeadLast, kCP936TrailCount] at *
    omega

theorem cp936TrailIndex_cp936TrailByte {trail : ℕ} (h : trail < kCP936TrailCount) :
    cp936TrailIndex (cp936TrailByte trail) = some trail := by
  simp only [kCP936TrailCount] at h
  unfold cp936TrailIndex cp936TrailByte
  rw [UInt8.toNat_ofNat']
  by_cases ht : trail < 63
  · rw [if_pos ht, if_pos (by omega)]
    congr 1
    omega
  · rw [if_neg ht, if_neg (by omega), if_pos (by omega)]
    congr 1
    omega

theorem cp936Index_cp936Bytes {i : ℕ} (hi : i < kCP936TableSize) :
    ∃ c d, cp936Bytes i = [c, d] ∧ ¬ c.toNat < 0x80 ∧ cp936Index c d = some i := by
  have htrail : cp936TrailIndex (cp936TrailByte (i % kCP936TrailCount)) =
      some (i % kCP936TrailCount) :=
    cp936TrailIndex_cp936TrailByte (Nat.mod_lt _ (by decide))
  have hlast : kCP936LeadFirst + i / kCP936TrailCount ≤ kCP936LeadLast := by
    simp only [kCP936TableSize, kCP936LeadFirst, kCP936LeadLast, kCP936TrailCount] at *
    omega
  have hlead : (UInt8.ofNat (kCP936LeadFirst + i / kCP936TrailCount)).toNat =
      kCP936LeadFirst + i / kCP936TrailCount := by
    rw [UInt8.toNat_ofNat', Nat.mod_eq_of_lt (lt_of_le_of_lt hlast (by decide))]
  refine ⟨_, _, rfl, ?_, ?_⟩
  · have hfirst : 0x80 ≤ kCP936LeadFirst := by decide
    rw [hlead]
    exact not_lt.2 (hfirst.trans (Nat.le_add_right _ _))
  · rw [cp936Index, htrail, hlead, Nat.add_sub_cancel_left]
    simp only
    rw [if_pos ⟨Nat.le_add_right _ _, hlast⟩, Nat.div_add_mod']

/-! ### The encoder -/

/-- **The encoder gives the first place of a character, and `0` when it has none.** -/
theorem cp936Encode_spec {ch : ℕ} (hch : ¬ ch < 0x80) :
    (∃ i < kCP936TableSize, T.entry i = ch ∧ (∀ j < i, T.entry j ≠ ch) ∧
      cp936Encode T ch = i) ∨
    (∀ i < kCP936TableSize, T.entry i ≠ ch) ∧ cp936Encode T ch = 0 := by
  classical
  have hsize : kCP936TableSize ≤ 65536 := by decide
  have hne : ch ≠ 0 := by omega
  by_cases hex : ∃ i, i < kCP936TableSize ∧ T.entry i = ch
  · left
    obtain ⟨hi, hentry⟩ := Nat.find_spec hex
    have hfirst : ∀ j < Nat.find hex, T.entry j ≠ ch := fun j hj h =>
      Nat.find_min hex hj ⟨hj.trans hi, h⟩
    refine ⟨Nat.find hex, hi, hentry, hfirst, ?_⟩
    obtain ⟨hlower, hhigh⟩ := (ReverseIndex.lowerBound_packed_iff hsize hne).2
      ⟨Nat.find hex, hi, hentry, hfirst, rfl⟩
    have hlt := T.entry_lt (Nat.find hex)
    have hshift : ch <<< 16 = ch * 65536 := Nat.shiftLeft_eq ch 16
    rw [cp936Encode, if_neg hch, Nat.mod_eq_of_lt (by rw [hshift]; omega), cp936ReverseMap, hlower]
    simp only [hhigh, if_true]
    exact ReverseIndex.pack_and ch (by omega)
  · right
    push Not at hex
    refine ⟨hex, ?_⟩
    rw [cp936Encode, if_neg hch]
    split
    · rfl
    · next it hit =>
      obtain ⟨i, hi, -, rfl⟩ := ReverseIndex.mem_packed.1 (List.mem_of_find?_eq_some hit)
      rw [ReverseIndex.pack_shiftRight _ (by omega), if_neg (hex i hi)]

/-- Is `'?'` written for the character? -/
def Replaced (T : CodeTables) (ch : ℕ) : Prop := ¬ ch < 0x80 ∧ cp936Encode T ch = 0

instance Replaced.instDecidable (T : CodeTables) (ch : ℕ) : Decidable (Replaced T ch) :=
  inferInstanceAs (Decidable (_ ∧ _))

/-- What becomes of a character that is encoded and decoded. -/
def keptChar (T : CodeTables) (ch : ℕ) : ℕ := if Replaced T ch then replacement.toNat else ch

/-- What is written for one character is decoded as this character. -/
theorem cp936ToUnicode_cp936Char (ch : ℕ) (s : List UInt8) :
    cp936ToUnicode T (cp936Char T ch ++ s) =
      (keptChar T ch :: (cp936ToUnicode T s).1, (cp936ToUnicode T s).2) := by
  unfold cp936Char
  by_cases hch : ch < 0x80
  · have hbyte : (UInt8.ofNat ch).toNat = ch := by
      rw [UInt8.toNat_ofNat']
      omega
    have hkept : keptChar T ch = ch := if_neg fun h => h.1 hch
    rw [if_pos hch, List.singleton_append, cp936ToUnicode_ascii (by omega), hbyte, hkept]
  · rw [if_neg hch]
    by_cases hzero : cp936Encode T ch = 0
    · have hkept : keptChar T ch = replacement.toNat := if_pos ⟨hch, hzero⟩
      rw [if_pos hzero, List.singleton_append, cp936ToUnicode_ascii (by decide), hkept]
    · obtain ⟨i, hi, hentry, -, henc⟩ | ⟨-, henc⟩ := cp936Encode_spec (T := T) hch
      · obtain ⟨c, d, hbytes, hc, hindex⟩ := cp936Index_cp936Bytes hi
        have hpair : cp936Pair T c d = ch := by rw [cp936Pair, hindex]; exact hentry
        have hkept : keptChar T ch = ch := if_neg fun h => hzero h.2
        rw [if_neg hzero, henc, hbytes, List.cons_append, List.singleton_append,
          cp936ToUnicode_pair hc (by omega), hpair, hkept]
      · exact absurd henc hzero

/-- **What the encoder makes of a text is decoded without an error.** -/
theorem cp936ToUnicode_cp936ToMb (us : List ℕ) :
    cp936ToUnicode T (cp936ToMb T us) = (us.map (keptChar T), 0) := by
  induction us with
  | nil => rfl
  | cons ch us ih =>
    have hcons : cp936ToMb T (ch :: us) = cp936Char T ch ++ cp936ToMb T us := List.flatMap_cons
    rw [hcons, cp936ToUnicode_cp936Char, ih, List.map_cons]

/-! ### Texts that are kept -/

/-- The character at the place `0` is not in the text, or it is in the ASCII part. -/
def FirstFree (T : CodeTables) (us : List ℕ) : Prop := T.entry 0 < 0x80 ∨ T.entry 0 ∉ us

/-- All characters are in the ASCII part or in the table. -/
def Known (T : CodeTables) (us : List ℕ) : Prop :=
  ∀ ch ∈ us, ch < 0x80 ∨ ∃ i < kCP936TableSize, T.entry i = ch

/-- No character of the text is replaced by `'?'`, and the text is decoded again. -/
structure Keeps (T : CodeTables) (us : List ℕ) : Prop where
  unreplaced : ∀ ch ∈ us, ¬ Replaced T ch
  decoded : (builtinToUnicode T (builtinToMb T us 936).out 936).out = us

/-- The bytes are decoded, encoded and decoded to the same text. -/
def Reencodes (T : CodeTables) (bs : List UInt8) : Prop :=
  (builtinToUnicode T (builtinToMb T (builtinToUnicode T bs 936).out 936).out 936).out =
    (builtinToUnicode T bs 936).out

theorem builtinToUnicode_builtinToMb (us : List ℕ) :
    (builtinToUnicode T (builtinToMb T us 936).out 936).out = us.map (keptChar T) := by
  simp only [builtinToUnicode, builtinToMb, if_true, cp936ToUnicode_cp936ToMb, ToUnicode.of]

theorem map_keptChar_iff (us : List ℕ) :
    us.map (keptChar T) = us ↔ ∀ ch ∈ us, ¬ Replaced T ch := by
  have hid : us.map (keptChar T) = us ↔ us.map (keptChar T) = us.map id := by rw [List.map_id]
  rw [hid, List.map_inj_left]
  refine forall₂_congr fun ch _ => ⟨fun h hr => ?_, fun h => if_neg h⟩
  have hq : ch = replacement.toNat := h.symm.trans (if_pos hr)
  exact hr.1 (hq ▸ by decide)

/-- Of the known characters the one at the place `0` is replaced. -/
theorem not_replaced_iff {us : List ℕ} (h : Known T us) :
    (∀ ch ∈ us, ¬ Replaced T ch) ↔ FirstFree T us := by
  constructor
  · intro hno
    by_contra hfree
    obtain ⟨hascii, hmem⟩ := not_or.1 hfree
    refine hno _ (not_not.1 hmem) ⟨hascii, ?_⟩
    obtain ⟨i, -, -, hfirst, henc⟩ | ⟨-, henc⟩ := cp936Encode_spec (T := T) hascii
    · rw [henc]
      by_contra hi
      exact hfirst 0 (Nat.pos_of_ne_zero hi) rfl
    · exact henc
  · rintro hfree ch hch ⟨hascii, hzero⟩
    obtain ⟨i, hi, hentry, -, henc⟩ | ⟨hnone, -⟩ := cp936Encode_spec (T := T) hascii
    · obtain rfl : i = 0 := by omega
      subst hentry
      exact hfree.elim hascii fun h => h hch
    · obtain hlt | ⟨i, hi, hentry⟩ := h ch hch
      · exact hascii hlt
      · exact hnone i hi hentry

/-- **A known text is kept if and only if it has not the character at the place `0`.** -/
theorem keeps_iff {us : List ℕ} (h : Known T us) : Keeps T us ↔ FirstFree T us := by
  rw [← not_replaced_iff h]
  refine ⟨fun hk => hk.unreplaced, fun hno => ⟨hno, ?_⟩⟩
  rw [builtinToUnicode_builtinToMb]
  exact (map_keptChar_iff us).2 hno

/-- The characters of what is decoded without an error are known. -/
theorem known_of_decoded {bs : List UInt8} (h : (cp936ToUnicode T bs).2 = 0) :
    Known T (cp936ToUnicode T bs).1 := by
  fun_induction cp936ToUnicode T bs with
  | case1 => exact fun ch hch => absurd hch List.not_mem_nil
  | case2 c hc => exact fun ch hch => .inl (List.mem_singleton.1 hch ▸ hc)
  | case3 c hc => exact absurd h one_ne_zero
  | case4 c d s hc r ih => exact List.forall_mem_cons.2 ⟨.inl hc, ih h⟩
  | case5 c d s hc hp r ih =>
    refine List.forall_mem_cons.2 ⟨.inr ?_, ih h⟩
    unfold cp936Pair at hp ⊢
    cases hi : cp936Index c d with
    | none => exact absurd (by rw [hi]) hp
    | some i => exact ⟨i, cp936Index_lt hi, rfl⟩
  | case6 c d s hc hp r ih => exact absurd h (Nat.succ_ne_zero _)

/-- **What is decoded without an error is decoded again if and only if it has not the character at
the place `0`.** -/
theorem reencodes_iff {bs : List UInt8} (h : (cp936ToUnicode T bs).2 = 0) :
    Reencodes T bs ↔ FirstFree T (builtinToUnicode T bs 936).out := by
  have hout : (builtinToUnicode T bs 936).out = (cp936ToUnicode T bs).1 := by
    rw [builtinToUnicode, if_pos rfl, ToUnicode.of]
  rw [Reencodes, builtinToUnicode_builtinToMb, map_keptChar_iff, hout]
  exact not_replaced_iff (known_of_decoded h)

/-- The text is that of the pieces, and each byte is in one piece. -/
structure Consumes (T : CodeTables) (bs : List UInt8) : Prop where
  bytes : (pieces T bs).flatMap Piece.bytes = bs
  text : (builtinToUnicode T bs 936).out = (pieces T bs).map (Piece.char T)

theorem consumes (bs : List UInt8) : Consumes T bs where
  bytes := pieces_bytes bs
  text := by rw [builtinToUnicode, if_pos rfl, ToUnicode.of, cp936ToUnicode_eq]

theorem toInt_eq_iff (n : ℕ) : toInt n = n ↔ n ≤ INT_MAX := by
  unfold toInt INT_MAX
  split_ifs <;> omega

/-- The number of bytes that are reported as not converted is that of the pieces that cannot be
decoded, if it is an `int`. -/
theorem reported_iff (bs : List UInt8) :
    (builtinToUnicode T bs 936).unConvertedChars = (pieces T bs).countP Piece.isBad ↔
      (pieces T bs).countP Piece.isBad ≤ INT_MAX := by
  rw [builtinToUnicode, if_pos rfl, ToUnicode.of, cp936ToUnicode_eq]
  exact toInt_eq_iff _

end

/-- **The codec is right but for the character at the place `0` of the table**, which is written as
`'?'`, and for counts that are no `int`. -/
theorem codec_iff (T : CodeTables) :
    (∀ bs, (cp936ToUnicode T bs).2 = 0 →
      (Reencodes T bs ↔ FirstFree T (builtinToUnicode T bs 936).out)) ∧
    (∀ us, Known T us → (Keeps T us ↔ FirstFree T us)) ∧
    ∀ bs, Consumes T bs ∧
      ((builtinToUnicode T bs 936).unConvertedChars = (pieces T bs).countP Piece.isBad ↔
        (pieces T bs).countP Piece.isBad ≤ INT_MAX) :=
  ⟨fun _ h => reencodes_iff h, fun _ h => keeps_iff h,
    fun bs => ⟨consumes bs, reported_iff bs⟩⟩

/-- The first row of the table of 936. -/
def firstRow : CodeTables where
  kCP936ToUnicode i :=
    [0x4e02, 0x4e04, 0x4e05, 0x4e06, 0x4e0f, 0x4e12, 0x4e17, 0x4e1f, 0x4e20, 0x4e21, 0x4e23, 0x4e26,
      0x4e29, 0x4e2e, 0x4e2f, 0x4e31].getD i 0
  kCP125xToUnicode _ _ := 0

/-- `81 40` is decoded as `U+4E02`, and this character is encoded as `'?'`. -/
theorem first_lost :
    (cp936ToUnicode firstRow [0x81, 0x40] = ([0x4E02], 0) ∧ ¬ Reencodes firstRow [0x81, 0x40]) ∧
      Known firstRow [0x4E02] ∧ ¬ Keeps firstRow [0x4E02] := by
  have hdecoded : cp936ToUnicode firstRow [0x81, 0x40] = ([0x4E02], 0) := by decide
  have hout : (builtinToUnicode firstRow [0x81, 0x40] 936).out = [0x4E02] := by
    rw [builtinToUnicode, if_pos rfl, ToUnicode.of, hdecoded]
  have hfree : ¬ FirstFree firstRow [0x4E02] := by
    rintro (h | h)
    · exact absurd h (by decide)
    · exact h (List.mem_singleton.2 rfl)
  have hknown : Known firstRow [0x4E02] := fun ch hch =>
    .inr ⟨0, by decide, by rw [List.mem_singleton.1 hch]; rfl⟩
  refine ⟨⟨hdecoded, fun h => hfree ?_⟩, hknown, fun h => hfree ((keeps_iff hknown).1 h)⟩
  rw [← hout]
  exact (reencodes_iff (by rw [hdecoded])).1 h

end CodePage

end Swinx
