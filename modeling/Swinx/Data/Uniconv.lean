import Mathlib

/-!
# Conversions of UTF-8, UTF-16 and UTF-32

Units are numbers, bytes are `UInt8`.  A converter that reads behind the end of its source finds the
value `past` there.

* `tostring_text` — valid text becomes the UTF-8 of its characters, whatever follows its `NUL`.
* `towstring_text` — the UTF-8 of characters becomes valid text again.
-/

namespace Swinx

namespace Uniconv

def SURROGATE_LEAD_FIRST : ℕ := 0xD800

def SURROGATE_TRAIL_FIRST : ℕ := 0xDC00

def SURROGATE_TRAIL_LAST : ℕ := 0xDFFF

/-! ## To UTF-8 -/

/-- One byte. -/
def utf8One (uch : ℕ) : List UInt8 := [UInt8.ofNat uch]

/-- Two bytes. -/
def utf8Two (uch : ℕ) : List UInt8 :=
  [UInt8.ofNat (0xC0 ||| uch >>> 6), UInt8.ofNat (0x80 ||| (uch &&& 0x3f))]

/-- Three bytes. -/
def utf8Three (uch : ℕ) : List UInt8 :=
  [UInt8.ofNat (0xE0 ||| uch >>> 12), UInt8.ofNat (0x80 ||| (uch >>> 6 &&& 0x3f)),
    UInt8.ofNat (0x80 ||| (uch &&& 0x3f))]

/-- Four bytes. -/
def utf8Four (xch : ℕ) : List UInt8 :=
  [UInt8.ofNat (0xF0 ||| xch >>> 18), UInt8.ofNat (0x80 ||| (xch >>> 12 &&& 0x3f)),
    UInt8.ofNat (0x80 ||| (xch >>> 6 &&& 0x3f)), UInt8.ofNat (0x80 ||| (xch &&& 0x3f))]

/-- The code point of two surrogates. -/
def fromSurrogates (uch trail : ℕ) : ℕ := 0x10000 + ((uch &&& 0x3ff) <<< 10) + (trail &&& 0x3ff)

def UTF8FromUTF16 (past : ℕ) : List ℕ → List UInt8
  | [] => []
  | uch :: us =>
    if uch < 0x80 then utf8One uch ++ UTF8FromUTF16 past us
    else if uch < 0x800 then utf8Two uch ++ UTF8FromUTF16 past us
    else if SURROGATE_LEAD_FIRST ≤ uch ∧ uch ≤ SURROGATE_TRAIL_LAST then
      match us with
      | [] => utf8Four (fromSurrogates uch past)
      | trail :: us => utf8Four (fromSurrogates uch trail) ++ UTF8FromUTF16 past us
    else utf8Three uch ++ UTF8FromUTF16 past us

def UTF16toUTF8Length : List ℕ → ℕ
  | [] => 0
  | uch :: us =>
    if uch < 0x80 then 1 + UTF16toUTF8Length us
    else if uch < 0x800 then 2 + UTF16toUTF8Length us
    else if SURROGATE_LEAD_FIRST ≤ uch ∧ uch ≤ SURROGATE_TRAIL_LAST then
      match us with
      | [] => 4
      | _ :: us => 4 + UTF16toUTF8Length us
    else 3 + UTF16toUTF8Length us

def UTF8FromUTF32 : List ℕ → List UInt8
  | [] => []
  | uch :: us =>
    if uch < 0x80 then utf8One uch ++ UTF8FromUTF32 us
    else if uch < 0x800 then utf8Two uch ++ UTF8FromUTF32 us
    else if uch < 0x10000 then utf8Three uch ++ UTF8FromUTF32 us
    else if uch < 0x200000 then utf8Four uch ++ UTF8FromUTF32 us
    -- Such a code is only logged.
    else UTF8FromUTF32 us

def UTF32toUTF8Length : List ℕ → ℕ
  | [] => 0
  | uch :: us =>
    if uch < 0x80 then 1 + UTF32toUTF8Length us
    else if uch < 0x800 then 2 + UTF32toUTF8Length us
    else if uch < 0x10000 then 3 + UTF32toUTF8Length us
    else if uch < 0x200000 then 4 + UTF32toUTF8Length us
    else UTF32toUTF8Length us

/-! ## From UTF-8 -/

def UTF8CharLength (ch : UInt8) : ℕ :=
  if ch.toNat < 0x80 then 1
  else if ch.toNat < 0x80 + 0x40 + 0x20 then 2
  else if ch.toNat < 0x80 + 0x40 + 0x20 + 0x10 then 3
  else 4

/-- `UTF16Length`, after `skip` more bytes of a character that is counted already. -/
def utf16LengthFrom : ℕ → List UInt8 → ℕ
  | _, [] => 0
  | skip + 1, _ :: s => utf16LengthFrom skip s
  | 0, ch :: s =>
    if s.length + 1 < UTF8CharLength ch then
      -- The lead surrogate of an unfinished character is counted.
      if UTF8CharLength ch = 4 then 1 else 0
    else (if UTF8CharLength ch = 4 then 2 else 1) + utf16LengthFrom (UTF8CharLength ch - 1) s

def UTF16Length (s : List UInt8) : ℕ := utf16LengthFrom 0 s

/-- `UTF32Length`, after `skip` more bytes of a character that is counted already. -/
def utf32LengthFrom : ℕ → List UInt8 → ℕ
  | _, [] => 0
  | skip + 1, _ :: s => utf32LengthFrom skip s
  | 0, ch :: s =>
    if s.length + 1 < UTF8CharLength ch then 0
    else 1 + utf32LengthFrom (UTF8CharLength ch - 1) s

def UTF32Length (s : List UInt8) : ℕ := utf32LengthFrom 0 s

/-- `us[i]` -/
def byteAt (past : UInt8) (s : List UInt8) (i : ℕ) : ℕ := (s.getD i past).toNat

/-- The bits of a character of four bytes. -/
def fromFour (past : UInt8) (ch : UInt8) (s : List UInt8) : ℕ :=
  ((ch.toNat &&& 0x7) <<< 18) + ((byteAt past s 0 &&& 0x3F) <<< 12) +
    ((byteAt past s 1 &&& 0x3F) <<< 6) + (byteAt past s 2 &&& 0x3F)

/-- `static_cast<uint16_t>(((val - 0x10000) >> 10) + SURROGATE_LEAD_FIRST)` -/
def leadSurrogate (val : ℕ) : ℕ :=
  ((((val : ℤ) - 0x10000) / 1024 + SURROGATE_LEAD_FIRST) % 65536).toNat

/-- `static_cast<uint16_t>((val & 0x3ff) + SURROGATE_TRAIL_FIRST)` -/
def trailSurrogate (val : ℕ) : ℕ := ((val &&& 0x3ff) + SURROGATE_TRAIL_FIRST) % 65536

/-- The units that are written to a buffer of `tlen` units. -/
def UTF16FromUTF8 (past : UInt8) : ℕ → List UInt8 → List ℕ
  | 0, _ => []
  | _ + 1, [] => []
  | tlen + 1, ch :: s =>
    if ch.toNat < 0x80 then ch.toNat :: UTF16FromUTF8 past tlen s
    else if ch.toNat < 0x80 + 0x40 + 0x20 then
      (((ch.toNat &&& 0x1F) <<< 6) + (byteAt past s 0 &&& 0x7F)) % 65536 ::
        UTF16FromUTF8 past tlen (s.drop 1)
    else if ch.toNat < 0x80 + 0x40 + 0x20 + 0x10 then
      (((ch.toNat &&& 0xF) <<< 12) + ((byteAt past s 0 &&& 0x7F) <<< 6) +
        (byteAt past s 1 &&& 0x7F)) % 65536 :: UTF16FromUTF8 past tlen (s.drop 2)
    else
      -- Both surrogates are written, also when the buffer has place for one.
      leadSurrogate (fromFour past ch s) :: trailSurrogate (fromFour past ch s) ::
        match tlen with
        | 0 => []
        | tlen + 1 => UTF16FromUTF8 past tlen (s.drop 3)

/-- The units that are written to a buffer of `tlen` units. -/
def UTF32FromUTF8 (past : UInt8) : ℕ → List UInt8 → List ℕ
  | 0, _ => []
  | _ + 1, [] => []
  | tlen + 1, ch :: s =>
    if ch.toNat < 0x80 then ch.toNat :: UTF32FromUTF8 past tlen s
    else if ch.toNat < 0x80 + 0x40 + 0x20 then
      (((ch.toNat &&& 0x1F) <<< 6) + (byteAt past s 0 &&& 0x7F)) ::
        UTF32FromUTF8 past tlen (s.drop 1)
    else if ch.toNat < 0x80 + 0x40 + 0x20 + 0x10 then
      (((ch.toNat &&& 0xF) <<< 12) + ((byteAt past s 0 &&& 0x7F) <<< 6) +
        (byteAt past s 1 &&& 0x7F)) :: UTF32FromUTF8 past tlen (s.drop 2)
    else fromFour past ch s :: UTF32FromUTF8 past tlen (s.drop 3)

/-! ## Wide strings -/

/-- `WCHAR_SIZE` -/
inductive Wide
  | utf16
  | utf32
  deriving DecidableEq, Repr

/-- `sizeof(wchar_t)` -/
def Wide.size : Wide → ℕ
  | .utf16 => 2
  | .utf32 => 4

/-- `tostring`: the string gets its length first, and then its bytes. -/
def tostring (wide : Wide) (past : ℕ) (src : List ℕ) : List UInt8 :=
  match wide with
  | .utf16 =>
    UTF8FromUTF16 past src ++
      List.replicate (UTF16toUTF8Length src - (UTF8FromUTF16 past src).length) 0
  | .utf32 =>
    UTF8FromUTF32 src ++ List.replicate (UTF32toUTF8Length src - (UTF8FromUTF32 src).length) 0

/-- `str.length()` of `towstring`. -/
def towstringLength (wide : Wide) (src : List UInt8) : ℕ :=
  match wide with
  | .utf16 => UTF16Length src
  | .utf32 => UTF32Length src

/-- What `str.data()` of `towstring` points at, with the unit behind its end. -/
def towstring (wide : Wide) (past : UInt8) (src : List UInt8) : List ℕ :=
  let units := match wide with
    | .utf16 => UTF16FromUTF8 past (UTF16Length src) src
    | .utf32 => UTF32FromUTF8 past (UTF32Length src) src
  units ++ List.replicate (towstringLength wide src + 1 - units.length) 0

/-- A code point that is not a surrogate. -/
def Scalar (c : ℕ) : Prop := c < 0xD800 ∨ 0xE000 ≤ c ∧ c < 0x110000

/-- The units of a character. -/
def Wide.encode : Wide → ℕ → List ℕ
  | .utf16, c =>
    if c < 0x10000 then [c] else [0xD800 + (c - 0x10000) / 1024, 0xDC00 + (c - 0x10000) % 1024]
  | .utf32, c => [c]

/-- The bytes of a character. -/
def utf8 (c : ℕ) : List UInt8 :=
  if c < 0x80 then utf8One c
  else if c < 0x800 then utf8Two c
  else if c < 0x10000 then utf8Three c
  else utf8Four c

/-! ## Bits -/

theorem and_3f (n : ℕ) : n &&& 0x3f = n % 64 := Nat.and_two_pow_sub_one_eq_mod n 6

theorem and_7f (n : ℕ) : n &&& 0x7f = n % 128 := Nat.and_two_pow_sub_one_eq_mod n 7

theorem and_1f (n : ℕ) : n &&& 0x1f = n % 32 := Nat.and_two_pow_sub_one_eq_mod n 5

theorem and_f (n : ℕ) : n &&& 0xf = n % 16 := Nat.and_two_pow_sub_one_eq_mod n 4

theorem and_7 (n : ℕ) : n &&& 0x7 = n % 8 := Nat.and_two_pow_sub_one_eq_mod n 3

theorem and_3ff (n : ℕ) : n &&& 0x3ff = n % 1024 := Nat.and_two_pow_sub_one_eq_mod n 10

theorem toNat_lead2 {x : ℕ} (h : x < 32) : (UInt8.ofNat (0xC0 ||| x)).toNat = 192 + x := by
  revert x; decide

theorem toNat_lead3 {x : ℕ} (h : x < 16) : (UInt8.ofNat (0xE0 ||| x)).toNat = 224 + x := by
  revert x; decide

theorem toNat_lead4 {x : ℕ} (h : x < 8) : (UInt8.ofNat (0xF0 ||| x)).toNat = 240 + x := by
  revert x; decide

theorem toNat_tail {x : ℕ} (h : x < 64) : (UInt8.ofNat (0x80 ||| x)).toNat = 128 + x := by
  revert x; decide

theorem utf8One_eq {c : ℕ} (h : c < 0x80) : ∃ b, utf8One c = [b] ∧ b.toNat = c :=
  ⟨_, rfl, by rw [UInt8.toNat_ofNat', Nat.mod_eq_of_lt (by omega)]⟩

theorem utf8Two_eq {c : ℕ} (h : c < 0x800) :
    ∃ b₀ b₁, utf8Two c = [b₀, b₁] ∧ b₀.toNat = 192 + c / 64 ∧ b₁.toNat = 128 + c % 64 := by
  refine ⟨_, _, rfl, ?_, ?_⟩
  · rw [Nat.shiftRight_eq_div_pow, toNat_lead2 (by omega)]
  · rw [and_3f, toNat_tail (by omega)]

theorem utf8Three_eq {c : ℕ} (h : c < 0x10000) :
    ∃ b₀ b₁ b₂, utf8Three c = [b₀, b₁, b₂] ∧ b₀.toNat = 224 + c / 4096 ∧
      b₁.toNat = 128 + c / 64 % 64 ∧ b₂.toNat = 128 + c % 64 := by
  refine ⟨_, _, _, rfl, ?_, ?_, ?_⟩
  · rw [Nat.shiftRight_eq_div_pow, toNat_lead3 (by omega)]
  · rw [Nat.shiftRight_eq_div_pow, and_3f, toNat_tail (by omega)]
  · rw [and_3f, toNat_tail (by omega)]

theorem utf8Four_eq {c : ℕ} (h : c < 0x200000) :
    ∃ b₀ b₁ b₂ b₃, utf8Four c = [b₀, b₁, b₂, b₃] ∧ b₀.toNat = 240 + c / 262144 ∧
      b₁.toNat = 128 + c / 4096 % 64 ∧ b₂.toNat = 128 + c / 64 % 64 ∧
      b₃.toNat = 128 + c % 64 := by
  refine ⟨_, _, _, _, rfl, ?_, ?_, ?_, ?_⟩
  · rw [Nat.shiftRight_eq_div_pow, toNat_lead4 (by omega)]
  · rw [Nat.shiftRight_eq_div_pow, and_3f, toNat_tail (by omega)]
  · rw [Nat.shiftRight_eq_div_pow, and_3f, toNat_tail (by omega)]
  · rw [and_3f, toNat_tail (by omega)]

/-! ## Lengths -/

theorem length_UTF8FromUTF16 (past : ℕ) (us : List ℕ) :
    (UTF8FromUTF16 past us).length = UTF16toUTF8Length us := by
  fun_induction UTF8FromUTF16 past us with
  | case1 => rfl
  | case2 uch us h1 ih =>
    unfold UTF16toUTF8Length
    rw [if_pos h1, List.length_append, ih]
    rfl
  | case3 uch us h1 h2 ih =>
    unfold UTF16toUTF8Length
    rw [if_neg h1, if_pos h2, List.length_append, ih]
    rfl
  | case4 uch h1 h2 h3 =>
    rw [UTF16toUTF8Length, if_neg h1, if_neg h2, if_pos h3]
    rfl
  | case5 uch h1 h2 h3 trail us ih =>
    rw [UTF16toUTF8Length, if_neg h1, if_neg h2, if_pos h3, List.length_append, ih]
    rfl
  | case6 uch us h1 h2 h3 ih =>
    unfold UTF16toUTF8Length
    rw [if_neg h1, if_neg h2, if_neg h3, List.length_append, ih]
    rfl

theorem length_UTF8FromUTF32 (us : List ℕ) :
    (UTF8FromUTF32 us).length = UTF32toUTF8Length us := by
  induction us with
  | nil => rfl
  | cons uch us ih =>
    simp only [UTF8FromUTF32, UTF32toUTF8Length]
    split_ifs <;>
      simp only [List.length_append, ih, utf8One, utf8Two, utf8Three, utf8Four, List.length_cons,
        List.length_nil]

/-- The length that a string gets first is the number of its bytes. -/
theorem tostring_eq (wide : Wide) (past : ℕ) (src : List ℕ) :
    tostring wide past src = match wide with
      | .utf16 => UTF8FromUTF16 past src
      | .utf32 => UTF8FromUTF32 src := by
  cases wide <;> simp [tostring, length_UTF8FromUTF16, length_UTF8FromUTF32]

theorem length_UTF16FromUTF8_le (past : UInt8) (tlen : ℕ) (s : List UInt8) :
    (UTF16FromUTF8 past tlen s).length ≤ tlen + 1 := by
  induction tlen using Nat.strong_induction_on generalizing s with
  | _ tlen ih =>
    cases tlen with
    | zero => simp [UTF16FromUTF8]
    | succ tlen =>
      cases s with
      | nil => simp [UTF16FromUTF8]
      | cons ch s =>
        have hrest := ih tlen (Nat.lt_succ_self _)
        rw [UTF16FromUTF8.eq_def past (tlen + 1)]
        simp only
        split_ifs
        · simpa using hrest s
        · simpa using hrest (s.drop 1)
        · simpa using hrest (s.drop 2)
        · cases tlen with
          | zero => simp
          | succ tlen => simpa using ih tlen (by omega) (s.drop 3)

theorem length_UTF32FromUTF8_le (past : UInt8) (tlen : ℕ) (s : List UInt8) :
    (UTF32FromUTF8 past tlen s).length ≤ tlen := by
  fun_induction UTF32FromUTF8 past tlen s <;> simp_all

@[simp] theorem length_towstring (wide : Wide) (past : UInt8) (src : List UInt8) :
    (towstring wide past src).length = towstringLength wide src + 1 := by
  cases wide with
  | utf16 =>
    have := length_UTF16FromUTF8_le past (UTF16Length src) src
    simp only [towstring, towstringLength, List.length_append, List.length_replicate]
    omega
  | utf32 =>
    have := length_UTF32FromUTF8_le past (UTF32Length src) src
    simp only [towstring, towstringLength, List.length_append, List.length_replicate]
    omega

/-! ## One character -/

theorem Scalar.lt {c : ℕ} (h : Scalar c) : c < 0x110000 := by
  unfold Scalar at h; omega

theorem UTF8FromUTF16_encode {c : ℕ} (hc : Scalar c) (past : ℕ) (us : List ℕ) :
    UTF8FromUTF16 past (Wide.utf16.encode c ++ us) = utf8 c ++ UTF8FromUTF16 past us := by
  have hlt := hc.lt
  by_cases h : c < 0x10000
  · have hno : ¬ (SURROGATE_LEAD_FIRST ≤ c ∧ c ≤ SURROGATE_TRAIL_LAST) := by
      unfold Scalar at hc
      unfold SURROGATE_LEAD_FIRST SURROGATE_TRAIL_LAST
      omega
    rw [Wide.encode, if_pos h, List.singleton_append, UTF8FromUTF16.eq_def past (c :: us), utf8]
    simp only [if_neg hno, if_pos h]
    split_ifs <;> rfl
  · have hcode : fromSurrogates (0xD800 + (c - 0x10000) / 1024) (0xDC00 + (c - 0x10000) % 1024) =
        c := by
      unfold fromSurrogates
      rw [and_3ff, and_3ff, Nat.shiftLeft_eq]
      omega
    have hlead : SURROGATE_LEAD_FIRST ≤ 0xD800 + (c - 0x10000) / 1024 ∧
        0xD800 + (c - 0x10000) / 1024 ≤ SURROGATE_TRAIL_LAST := by
      unfold SURROGATE_LEAD_FIRST SURROGATE_TRAIL_LAST
      omega
    simp only [Wide.encode, if_neg h, List.cons_append, List.nil_append, UTF8FromUTF16]
    rw [if_neg (by omega), if_neg (by omega), if_pos hlead, hcode, utf8, if_neg (by omega),
      if_neg (by omega), if_neg h]

theorem UTF8FromUTF32_encode {c : ℕ} (hc : Scalar c) (us : List ℕ) :
    UTF8FromUTF32 (Wide.utf32.encode c ++ us) = utf8 c ++ UTF8FromUTF32 us := by
  have hlt := hc.lt
  simp only [Wide.encode, List.singleton_append, UTF8FromUTF32, utf8]
  split_ifs
  all_goals first | rfl | omega

theorem UTF16FromUTF8_utf8 {c : ℕ} (hc : Scalar c) (past : UInt8) (n : ℕ) (s : List UInt8) :
    UTF16FromUTF8 past ((Wide.utf16.encode c).length + n) (utf8 c ++ s) =
      Wide.utf16.encode c ++ UTF16FromUTF8 past n s := by
  have hlt := hc.lt
  unfold utf8
  split_ifs with h1 h2 h3
  · obtain ⟨b, he, hb⟩ := utf8One_eq h1
    simp only [he, Wide.encode, if_pos (show c < 0x10000 by omega), List.length_singleton,
      Nat.add_comm 1, List.singleton_append]
    rw [UTF16FromUTF8.eq_def past (n + 1)]
    simp only [hb, if_pos h1]
  · obtain ⟨b₀, b₁, he, hb₀, hb₁⟩ := utf8Two_eq h2
    simp only [he, Wide.encode, if_pos (show c < 0x10000 by omega), List.length_singleton,
      Nat.add_comm 1, List.cons_append, List.nil_append]
    rw [UTF16FromUTF8.eq_def past (n + 1)]
    simp only [byteAt, List.getD_cons_zero, List.drop_succ_cons, List.drop_zero, hb₀, hb₁, and_1f,
      and_7f, Nat.shiftLeft_eq]
    rw [if_neg (by omega), if_pos (by omega)]
    congr 1
    omega
  · obtain ⟨b₀, b₁, b₂, he, hb₀, hb₁, hb₂⟩ := utf8Three_eq h3
    simp only [he, Wide.encode, if_pos h3, List.length_singleton, Nat.add_comm 1,
      List.cons_append, List.nil_append]
    rw [UTF16FromUTF8.eq_def past (n + 1)]
    simp only [byteAt, List.getD_cons_zero, List.getD_cons_succ, List.drop_succ_cons,
      List.drop_zero, hb₀, hb₁, hb₂, and_f, and_7f, Nat.shiftLeft_eq]
    rw [if_neg (by omega), if_neg (by omega), if_pos (by omega)]
    congr 1
    omega
  · obtain ⟨b₀, b₁, b₂, b₃, he, hb₀, hb₁, hb₂, hb₃⟩ := utf8Four_eq (show c < 0x200000 by omega)
    have hval : fromFour past b₀ (b₁ :: b₂ :: b₃ :: s) = c := by
      simp only [fromFour, byteAt, List.getD_cons_zero, List.getD_cons_succ, hb₀, hb₁, hb₂, hb₃,
        and_7, and_3f, Nat.shiftLeft_eq]
      omega
    have hlead : leadSurrogate c = 0xD800 + (c - 0x10000) / 1024 := by
      unfold leadSurrogate SURROGATE_LEAD_FIRST
      omega
    have htrail : trailSurrogate c = 0xDC00 + (c - 0x10000) % 1024 := by
      unfold trailSurrogate SURROGATE_TRAIL_FIRST
      rw [and_3ff]
      omega
    simp only [he, Wide.encode, if_neg h3, List.length_cons, List.length_nil, Nat.zero_add,
      List.cons_append, List.nil_append]
    rw [show 1 + 1 + n = n + 1 + 1 by omega, UTF16FromUTF8, if_neg (by omega), if_neg (by omega),
      if_neg (by omega), hval, hlead, htrail]
    rfl

theorem UTF32FromUTF8_utf8 {c : ℕ} (hc : Scalar c) (past : UInt8) (n : ℕ) (s : List UInt8) :
    UTF32FromUTF8 past ((Wide.utf32.encode c).length + n) (utf8 c ++ s) =
      Wide.utf32.encode c ++ UTF32FromUTF8 past n s := by
  have hlt := hc.lt
  simp only [Wide.encode, List.length_singleton, Nat.add_comm 1, List.singleton_append]
  unfold utf8
  split_ifs with h1 h2 h3
  · obtain ⟨b, he, hb⟩ := utf8One_eq h1
    simp only [he, List.singleton_append, UTF32FromUTF8, hb, if_pos h1]
  · obtain ⟨b₀, b₁, he, hb₀, hb₁⟩ := utf8Two_eq h2
    simp only [he, List.cons_append, List.nil_append, UTF32FromUTF8, byteAt,
      List.getD_cons_zero, List.drop_succ_cons, List.drop_zero, hb₀, hb₁, and_1f, and_7f,
      Nat.shiftLeft_eq]
    rw [if_neg (by omega), if_pos (by omega)]
    congr 1
    omega
  · obtain ⟨b₀, b₁, b₂, he, hb₀, hb₁, hb₂⟩ := utf8Three_eq h3
    simp only [he, List.cons_append, List.nil_append, UTF32FromUTF8, byteAt,
      List.getD_cons_zero, List.getD_cons_succ, List.drop_succ_cons, List.drop_zero, hb₀, hb₁,
      hb₂, and_f, and_7f, Nat.shiftLeft_eq]
    rw [if_neg (by omega), if_neg (by omega), if_pos (by omega)]
    congr 1
    omega
  · obtain ⟨b₀, b₁, b₂, b₃, he, hb₀, hb₁, hb₂, hb₃⟩ := utf8Four_eq (show c < 0x200000 by omega)
    have hval : fromFour past b₀ (b₁ :: b₂ :: b₃ :: s) = c := by
      simp only [fromFour, byteAt, List.getD_cons_zero, List.getD_cons_succ, hb₀, hb₁, hb₂, hb₃,
        and_7, and_3f, Nat.shiftLeft_eq]
      omega
    simp only [he, List.cons_append, List.nil_append]
    rw [UTF32FromUTF8, if_neg (by omega), if_neg (by omega), if_neg (by omega), hval]
    rfl

theorem utf8_eq_cons {c : ℕ} (hc : Scalar c) :
    ∃ b bs, utf8 c = b :: bs ∧ UTF8CharLength b = bs.length + 1 ∧
      (Wide.utf16.encode c).length = if UTF8CharLength b = 4 then 2 else 1 := by
  have hlt := hc.lt
  unfold utf8
  split_ifs with h1 h2 h3
  · obtain ⟨b, he, hb⟩ := utf8One_eq h1
    have hl : UTF8CharLength b = 1 := by rw [UTF8CharLength, if_pos (by omega)]
    refine ⟨b, [], he, hl, ?_⟩
    simp [hl, Wide.encode, show c < 0x10000 by omega]
  · obtain ⟨b₀, b₁, he, hb₀, hb₁⟩ := utf8Two_eq h2
    have hl : UTF8CharLength b₀ = 2 := by
      rw [UTF8CharLength, if_neg (by omega), if_pos (by omega)]
    refine ⟨b₀, [b₁], he, hl, ?_⟩
    simp [hl, Wide.encode, show c < 0x10000 by omega]
  · obtain ⟨b₀, b₁, b₂, he, hb₀, hb₁, hb₂⟩ := utf8Three_eq h3
    have hl : UTF8CharLength b₀ = 3 := by
      rw [UTF8CharLength, if_neg (by omega), if_neg (by omega), if_pos (by omega)]
    refine ⟨b₀, [b₁, b₂], he, hl, ?_⟩
    simp [hl, Wide.encode, h3]
  · obtain ⟨b₀, b₁, b₂, b₃, he, hb₀, hb₁, hb₂, hb₃⟩ := utf8Four_eq (show c < 0x200000 by omega)
    have hl : UTF8CharLength b₀ = 4 := by
      rw [UTF8CharLength, if_neg (by omega), if_neg (by omega), if_neg (by omega)]
    refine ⟨b₀, [b₁, b₂, b₃], he, hl, ?_⟩
    simp [hl, Wide.encode, h3]

theorem utf16LengthFrom_append (bs s : List UInt8) :
    utf16LengthFrom bs.length (bs ++ s) = utf16LengthFrom 0 s := by
  induction bs with
  | nil => rfl
  | cons b bs ih => rw [List.length_cons, List.cons_append, utf16LengthFrom, ih]

theorem utf32LengthFrom_append (bs s : List UInt8) :
    utf32LengthFrom bs.length (bs ++ s) = utf32LengthFrom 0 s := by
  induction bs with
  | nil => rfl
  | cons b bs ih => rw [List.length_cons, List.cons_append, utf32LengthFrom, ih]

theorem utf16LengthFrom_utf8 {c : ℕ} (hc : Scalar c) (s : List UInt8) :
    utf16LengthFrom 0 (utf8 c ++ s) = (Wide.utf16.encode c).length + utf16LengthFrom 0 s := by
  obtain ⟨b, bs, he, hl, hw⟩ := utf8_eq_cons hc
  rw [he, List.cons_append, utf16LengthFrom, if_neg (by simp [hl]), hw,
    show UTF8CharLength b - 1 = bs.length by omega, utf16LengthFrom_append]

theorem utf32LengthFrom_utf8 {c : ℕ} (hc : Scalar c) (s : List UInt8) :
    utf32LengthFrom 0 (utf8 c ++ s) = (Wide.utf32.encode c).length + utf32LengthFrom 0 s := by
  obtain ⟨b, bs, he, hl, -⟩ := utf8_eq_cons hc
  rw [he, List.cons_append, utf32LengthFrom, if_neg (by simp [hl]),
    show UTF8CharLength b - 1 = bs.length by omega, utf32LengthFrom_append]
  rfl

theorem ofNat_or_ne_zero {k : ℕ} (hk : k.testBit 7 = true) (x : ℕ) :
    UInt8.ofNat (k ||| x) ≠ 0 := by
  intro h
  have hbit : ((k ||| x) % 2 ^ 8).testBit 7 = true := by
    rw [Nat.testBit_mod_two_pow, Nat.testBit_or, hk]
    rfl
  have hzero : (k ||| x) % 2 ^ 8 = 0 := by
    rw [← UInt8.toNat_ofNat', h]
    rfl
  rw [hzero] at hbit
  cases hbit

theorem zero_notMem_utf8Two (uch : ℕ) : (0 : UInt8) ∉ utf8Two uch := by
  simp only [utf8Two, List.mem_cons, List.not_mem_nil, or_false, not_or]
  exact ⟨(ofNat_or_ne_zero rfl _).symm, (ofNat_or_ne_zero rfl _).symm⟩

theorem zero_notMem_utf8Three (uch : ℕ) : (0 : UInt8) ∉ utf8Three uch := by
  simp only [utf8Three, List.mem_cons, List.not_mem_nil, or_false, not_or]
  exact ⟨(ofNat_or_ne_zero rfl _).symm, (ofNat_or_ne_zero rfl _).symm,
    (ofNat_or_ne_zero rfl _).symm⟩

theorem zero_notMem_utf8Four (xch : ℕ) : (0 : UInt8) ∉ utf8Four xch := by
  simp only [utf8Four, List.mem_cons, List.not_mem_nil, or_false, not_or]
  exact ⟨(ofNat_or_ne_zero rfl _).symm, (ofNat_or_ne_zero rfl _).symm,
    (ofNat_or_ne_zero rfl _).symm, (ofNat_or_ne_zero rfl _).symm⟩

theorem zero_notMem_utf8One {uch : ℕ} (h : uch < 0x80) (h0 : uch ≠ 0) :
    (0 : UInt8) ∉ utf8One uch := by
  obtain ⟨b, hb, hval⟩ := utf8One_eq h
  rw [hb, List.mem_singleton]
  rintro rfl
  exact h0 hval.symm

theorem zero_notMem_utf8 {c : ℕ} (h0 : c ≠ 0) : (0 : UInt8) ∉ utf8 c := by
  unfold utf8
  split_ifs with h1 h2 h3
  · exact zero_notMem_utf8One h1 h0
  · exact zero_notMem_utf8Two c
  · exact zero_notMem_utf8Three c
  · exact zero_notMem_utf8Four c

/-! ## Text -/

/-- The units of a text. -/
def Wide.text (wide : Wide) (cs : List ℕ) : List ℕ := cs.flatMap wide.encode

/-- The bytes of a text. -/
def utf8Text (cs : List ℕ) : List UInt8 := cs.flatMap utf8

@[simp] theorem Wide.text_cons (wide : Wide) (c : ℕ) (cs : List ℕ) :
    wide.text (c :: cs) = wide.encode c ++ wide.text cs := List.flatMap_cons

@[simp] theorem utf8Text_cons (c : ℕ) (cs : List ℕ) : utf8Text (c :: cs) = utf8 c ++ utf8Text cs :=
  List.flatMap_cons

/-- **Valid text becomes the UTF-8 of its characters**, whatever follows it. -/
theorem tostring_text (wide : Wide) (past : ℕ) {cs : List ℕ} (hcs : ∀ c ∈ cs, Scalar c)
    (us : List ℕ) :
    tostring wide past (wide.text cs ++ us) = utf8Text cs ++ tostring wide past us := by
  rw [tostring_eq, tostring_eq]
  induction cs with
  | nil => rfl
  | cons c cs ih =>
    have hc := hcs c List.mem_cons_self
    have := ih fun c' hc' => hcs c' (List.mem_cons_of_mem c hc')
    rw [Wide.text_cons, utf8Text_cons, List.append_assoc, List.append_assoc, ← this]
    cases wide with
    | utf16 => exact UTF8FromUTF16_encode hc past _
    | utf32 => exact UTF8FromUTF32_encode hc _

theorem towstringLength_text (wide : Wide) {cs : List ℕ} (hcs : ∀ c ∈ cs, Scalar c) :
    towstringLength wide (utf8Text cs) = (wide.text cs).length := by
  induction cs with
  | nil => cases wide <;> rfl
  | cons c cs ih =>
    have hc := hcs c List.mem_cons_self
    have := ih fun c' hc' => hcs c' (List.mem_cons_of_mem c hc')
    rw [Wide.text_cons, utf8Text_cons, List.length_append, ← this]
    cases wide with
    | utf16 => exact utf16LengthFrom_utf8 hc _
    | utf32 => exact utf32LengthFrom_utf8 hc _

theorem UTF16FromUTF8_text (past : UInt8) {cs : List ℕ} (hcs : ∀ c ∈ cs, Scalar c) :
    UTF16FromUTF8 past (Wide.utf16.text cs).length (utf8Text cs) = Wide.utf16.text cs := by
  induction cs with
  | nil => rfl
  | cons c cs ih =>
    have hc := hcs c List.mem_cons_self
    have := ih fun c' hc' => hcs c' (List.mem_cons_of_mem c hc')
    rw [Wide.text_cons, utf8Text_cons, List.length_append, UTF16FromUTF8_utf8 hc, this]

theorem UTF32FromUTF8_text (past : UInt8) {cs : List ℕ} (hcs : ∀ c ∈ cs, Scalar c) :
    UTF32FromUTF8 past (Wide.utf32.text cs).length (utf8Text cs) = Wide.utf32.text cs := by
  induction cs with
  | nil => rfl
  | cons c cs ih =>
    have hc := hcs c List.mem_cons_self
    have := ih fun c' hc' => hcs c' (List.mem_cons_of_mem c hc')
    rw [Wide.text_cons, utf8Text_cons, List.length_append, UTF32FromUTF8_utf8 hc, this]

/-- **The UTF-8 of characters becomes valid text again**, with the `NUL` of the string. -/
theorem towstring_text (wide : Wide) (past : UInt8) {cs : List ℕ} (hcs : ∀ c ∈ cs, Scalar c) :
    towstring wide past (utf8Text cs) = wide.text cs ++ [0] := by
  have hlen := towstringLength_text wide hcs
  cases wide with
  | utf16 =>
    have hl : UTF16Length (utf8Text cs) = (Wide.utf16.text cs).length := hlen
    simp [towstring, hlen, hl, UTF16FromUTF8_text past hcs]
  | utf32 =>
    have hl : UTF32Length (utf8Text cs) = (Wide.utf32.text cs).length := hlen
    simp [towstring, hlen, hl, UTF32FromUTF8_text past hcs]

theorem zero_notMem_utf8Text {cs : List ℕ} (hcs : ∀ c ∈ cs, Scalar c ∧ c ≠ 0) :
    (0 : UInt8) ∉ utf8Text cs := by
  simp only [utf8Text, List.mem_flatMap, not_exists, not_and]
  exact fun c hc => zero_notMem_utf8 (hcs c hc).2

/-! ## No more units than bytes -/

theorem utf16LengthFrom_le (skip : ℕ) (s : List UInt8) :
    utf16LengthFrom skip s ≤ s.length - skip := by
  fun_induction utf16LengthFrom skip s with
  | case1 => exact Nat.zero_le _
  | case2 skip c s ih => simpa using ih
  | case3 ch s hcut h4 =>
    rw [List.length_cons]
    omega
  | case4 ch s hcut h4 => exact Nat.zero_le _
  | case5 ch s hcut ih =>
    have hpos : 1 ≤ UTF8CharLength ch := by
      unfold UTF8CharLength
      split_ifs <;> omega
    rw [List.length_cons]
    split_ifs <;> omega

theorem utf32LengthFrom_le (skip : ℕ) (s : List UInt8) :
    utf32LengthFrom skip s ≤ s.length - skip := by
  fun_induction utf32LengthFrom skip s with
  | case1 => exact Nat.zero_le _
  | case2 skip c s ih => simpa using ih
  | case3 ch s hcut => exact Nat.zero_le _
  | case4 ch s hcut ih =>
    rw [List.length_cons]
    omega

/-- **A string has no more units than bytes**, whatever its bytes are. -/
theorem towstringLength_le (wide : Wide) (s : List UInt8) : towstringLength wide s ≤ s.length := by
  cases wide with
  | utf16 => exact utf16LengthFrom_le 0 s
  | utf32 => exact utf32LengthFrom_le 0 s

/-! ## Terminators and memory -/

theorem wideText_concat_zero (wide : Wide) (cs : List ℕ) :
    wide.text (cs ++ [0]) = wide.text cs ++ [0] := by
  rw [Wide.text, List.flatMap_append, List.flatMap_singleton]
  cases wide <;> rfl

theorem utf8Text_concat_zero (cs : List ℕ) : utf8Text (cs ++ [0]) = utf8Text cs ++ [0] := by
  rw [utf8Text, List.flatMap_append, List.flatMap_singleton]
  rfl

theorem scalar_concat_zero {cs : List ℕ} (hcs : ∀ c ∈ cs, Scalar c) :
    ∀ c ∈ cs ++ [0], Scalar c :=
  List.forall_mem_append.2 ⟨hcs, List.forall_mem_singleton.2 (.inl (by decide))⟩

theorem Wide.size_pos (wide : Wide) : 0 < wide.size := by
  cases wide <;> decide

theorem Wide.text_lt (wide : Wide) {cs : List ℕ} (hcs : ∀ c ∈ cs, Scalar c) :
    ∀ u ∈ wide.text cs, u < 256 ^ wide.size := by
  intro u hu
  obtain ⟨c, hc, huc⟩ := List.mem_flatMap.1 hu
  have hlt := (hcs c hc).lt
  cases wide with
  | utf16 =>
    rw [Wide.encode] at huc
    change u < 65536
    split_ifs at huc with hb
    · rw [List.mem_singleton.1 huc]
      exact hb
    · simp only [List.mem_cons, List.not_mem_nil, or_false] at huc
      omega
  | utf32 =>
    rw [Wide.encode, List.mem_singleton] at huc
    change u < 4294967296
    omega

theorem zero_notMem_wideText (wide : Wide) {cs : List ℕ} (hcs : ∀ c ∈ cs, Scalar c ∧ c ≠ 0) :
    0 ∉ wide.text cs := by
  intro h
  obtain ⟨c, hc, h⟩ := List.mem_flatMap.1 h
  have h0 := (hcs c hc).2
  cases wide with
  | utf32 =>
    rw [Wide.encode, List.mem_singleton] at h
    exact h0 h.symm
  | utf16 =>
    rw [Wide.encode] at h
    split_ifs at h
    · exact h0 (List.mem_singleton.1 h).symm
    · simp only [List.mem_cons, List.not_mem_nil, or_false] at h
      omega

/-! ## Strings without a terminator inside -/

/-- Units without `NUL` become bytes without `NUL`, whatever they are. -/
theorem zero_notMem_tostring (wide : Wide) (past : ℕ) {us : List ℕ} (h : 0 ∉ us) :
    0 ∉ tostring wide past us := by
  rw [tostring_eq]
  cases wide with
  | utf32 =>
    dsimp only
    induction us with
    | nil => exact List.not_mem_nil
    | cons uch us ih =>
      obtain ⟨h0, hus⟩ := not_or.1 (mt List.mem_cons.2 h)
      have happend : ∀ {bs : List UInt8}, 0 ∉ bs → 0 ∉ bs ++ UTF8FromUTF32 us := fun hbs =>
        List.not_mem_append hbs (ih hus)
      rw [UTF8FromUTF32]
      split_ifs with h1
      · exact happend (zero_notMem_utf8One h1 (Ne.symm h0))
      · exact happend (zero_notMem_utf8Two uch)
      · exact happend (zero_notMem_utf8Three uch)
      · exact happend (zero_notMem_utf8Four uch)
      · exact ih hus
  | utf16 =>
    dsimp only
    fun_induction UTF8FromUTF16 past us with
    | case1 => exact List.not_mem_nil
    | case2 uch us h1 ih =>
      obtain ⟨h0, hus⟩ := not_or.1 (mt List.mem_cons.2 h)
      exact List.not_mem_append (zero_notMem_utf8One h1 (Ne.symm h0)) (ih hus)
    | case3 uch us h1 h2 ih =>
      exact List.not_mem_append (zero_notMem_utf8Two uch)
        (ih fun hus => h (List.mem_cons_of_mem uch hus))
    | case4 uch h1 h2 h3 => exact zero_notMem_utf8Four _
    | case5 uch h1 h2 h3 trail us ih =>
      exact List.not_mem_append (zero_notMem_utf8Four _) (ih fun hus => h (by simp [hus]))
    | case6 uch us h1 h2 h3 ih =>
      exact List.not_mem_append (zero_notMem_utf8Three uch)
        (ih fun hus => h (List.mem_cons_of_mem uch hus))

end Uniconv

end Swinx
