import Swinx.Data.UniconvCalls

/-!
# GetStringTypeEx

The two forms go over a text of `nLength` units and write a `WORD` for each unit that they take a
character to have.  The text stands in a memory that does not end behind it.

* `exactA_iff` — the `A` form is exact for the texts of one-byte characters.
* `exactW_iff` — the `W` form is exact for steady texts.
* `inStep_iff` — both, and what the two forms write for one text.
-/

namespace Swinx

namespace StringType

open Uniconv

def C1_UPPER : ℕ := 0x0001

def C1_LOWER : ℕ := 0x0002

def C1_DIGIT : ℕ := 0x0004

def C1_SPACE : ℕ := 0x0008

def C1_PUNCT : ℕ := 0x0010

def C1_BLANK : ℕ := 0x0040

def C1_DEFINED : ℕ := 0x0200

def C2_ARABICNUMBER : ℕ := 0x0006

def C2_WHITESPACE : ℕ := 0x000A

def C2_OTHERNEUTRAL : ℕ := 0x000B

def C3_HIGHSURROGATE : ℕ := 0x0800

def C3_LOWSURROGATE : ℕ := 0x1000

def C3_ALPHA : ℕ := 0x8000

/-- `dwInfoType`, where it is one that the functions take. -/
inductive InfoType
  | CT_CTYPE1
  | CT_CTYPE2
  | CT_CTYPE3
  deriving DecidableEq, Repr

def InfoType.ofDWORD : ℕ → Option InfoType
  | 1 => some .CT_CTYPE1
  | 2 => some .CT_CTYPE2
  | 4 => some .CT_CTYPE3
  | _ => none

def InfoType.toDWORD : InfoType → ℕ
  | .CT_CTYPE1 => 1
  | .CT_CTYPE2 => 2
  | .CT_CTYPE3 => 4

@[simp] theorem InfoType.ofDWORD_toDWORD (info : InfoType) : ofDWORD info.toDWORD = some info := by
  cases info <;> rfl

/-- `switch (dwInfoType)` -/
def InfoType.switch (type₁ type₂ type₃ : ℕ) : InfoType → ℕ
  | .CT_CTYPE1 => type₁
  | .CT_CTYPE2 => type₂
  | .CT_CTYPE3 => type₃

def INRANGE (x a b : ℕ) : Prop := a ≤ x ∧ x ≤ b

instance decidableINRANGE (x a b : ℕ) : Decidable (INRANGE x a b) :=
  inferInstanceAs (Decidable (_ ∧ _))

def getCharType (ch : ℕ) (dwInfoType : InfoType) : ℕ :=
  if ch = 0x3000 then dwInfoType.switch C1_DEFINED C2_WHITESPACE C3_ALPHA
  -- A `wchar_t` of four bytes is negative from `0x80000000` on.
  else if 0x7f < ch ∧ ch < 0x80000000 then
    dwInfoType.switch C1_DEFINED C2_OTHERNEUTRAL C3_LOWSURROGATE
  else if INRANGE ch 0x61 0x7A then dwInfoType.switch C1_LOWER C2_ARABICNUMBER C3_ALPHA
  else if INRANGE ch 0x41 0x5A then dwInfoType.switch C1_UPPER C2_ARABICNUMBER C3_ALPHA
  else if INRANGE ch 0x30 0x39 then dwInfoType.switch C1_DIGIT C2_ARABICNUMBER C3_ALPHA
  else if INRANGE ch 0x21 0x2f ∨ ch = 0x7F then
    dwInfoType.switch C1_PUNCT C2_ARABICNUMBER C3_ALPHA
  else if INRANGE ch 0x21 0x2f ∨ INRANGE ch 0x3A 0x40 ∨ INRANGE ch 0x5B 0x60 ∨
      INRANGE ch 0x7B 0x7E then
    dwInfoType.switch C1_PUNCT C2_ARABICNUMBER C3_ALPHA
  else if ch = 0x20 ∨ INRANGE ch 0x09 0x0D then
    dwInfoType.switch (if ch = 0x20 then C1_SPACE ||| C1_BLANK else C1_SPACE) C2_ARABICNUMBER
      C3_ALPHA
  else 0

/-- What each unit of a character of two units gets. -/
def pairType (dwInfoType : InfoType) : ℕ :=
  dwInfoType.switch C1_DEFINED C2_OTHERNEUTRAL C3_HIGHSURROGATE

/-- The first half of a surrogate pair. -/
def IsLead (uch : ℕ) : Prop := SURROGATE_LEAD_FIRST ≤ uch ∧ uch ≤ 0xDBFF

instance decidableIsLead (uch : ℕ) : Decidable (IsLead uch) :=
  inferInstanceAs (Decidable (_ ∧ _))

def WideCharLength (wide : Wide) (ch : ℕ) : ℕ :=
  match wide with
  | .utf16 => if IsLead ch then 2 else 1
  | .utf32 => 1

/-- What a call does. -/
structure Trace where
  /-- The words at `pwCharType`, one after the other. -/
  written : List ℕ
  /-- The places of the source that are read. -/
  reads : List ℕ
  deriving DecidableEq, Repr

/-- The rounds of the loop from the place `i` on, where a round says what it does and how far it
goes; there are at most as many as there are units. -/
def rounds (round : ℕ → Trace × ℕ) (nLength : ℤ) : ℕ → ℕ → Trace
  | 0, _ => ⟨[], []⟩
  | fuel + 1, i =>
    if (i : ℤ) < nLength then
      let now := (round i).1
      let later := rounds round nLength fuel (i + (round i).2)
      ⟨now.written ++ later.written, now.reads ++ later.reads⟩
    else ⟨[], []⟩

section

variable (wide : Wide) (dwInfoType : InfoType)

/-- A round of `GetStringTypeExW`. -/
def roundW (pszSrc : ℕ → ℕ) (i : ℕ) : Trace × ℕ :=
  let charLen := WideCharLength wide (pszSrc i)
  ({ written :=
      if 1 < charLen then List.replicate charLen (pairType dwInfoType)
      else [getCharType (pszSrc i) dwInfoType]
     reads := [i] }, charLen)

/-- A round of `GetStringTypeExA`; the source goes on by the length of the wide character. -/
def roundA (pszSrc : ℕ → UInt8) (i : ℕ) : Trace × ℕ :=
  let u8CharLen := UTF8CharLength (pszSrc i)
  let bytes := (List.range' i u8CharLen).map pszSrc
  let wc := (multiByteToWideChar wide 0 false bytes (some 3)).result fun _ => 0
  let charLen := WideCharLength wide (wc.headD 0)
  ({ written :=
      List.replicate u8CharLen
        (if 1 < charLen then pairType dwInfoType else getCharType (wc.headD 0) dwInfoType)
     reads := List.range' i u8CharLen }, charLen)

end

/-- `GetStringTypeExW`; `none` is `FALSE`, with nothing read or written. -/
def getStringTypeExW (wide : Wide) (dwInfoType : ℕ) (pszSrc : ℕ → ℕ) (nLength : ℤ) :
    Option Trace :=
  (InfoType.ofDWORD dwInfoType).map fun info =>
    rounds (roundW wide info pszSrc) nLength nLength.toNat 0

/-- `GetStringTypeExA` -/
def getStringTypeExA (wide : Wide) (dwInfoType : ℕ) (pszSrc : ℕ → UInt8) (nLength : ℤ) :
    Option Trace :=
  (InfoType.ofDWORD dwInfoType).map fun info =>
    rounds (roundA wide info pszSrc) nLength nLength.toNat 0

/-! ### Characters and their units -/

/-- The unit `j` of the text belongs to the character `c`. -/
def Belongs {α : Type} (encode : ℕ → List α) (text : List α) (j c : ℕ) : Prop :=
  ∃ before after, text = before ++ encode c ++ after ∧ before.length ≤ j ∧
    j < before.length + (encode c).length

/-- The class of a character. -/
def typeOf (wide : Wide) (dwInfoType : InfoType) (c : ℕ) : ℕ :=
  if 1 < (wide.encode c).length then pairType dwInfoType else getCharType c dwInfoType

/-- The units of a text in the memory. -/
def textOf {α : Type} (pszSrc : ℕ → α) (nLength : ℤ) : List α :=
  (List.range nLength.toNat).map pszSrc

/-- **The classes stay in step**: the call reads only the units it is given, writes a word for each
of them, and the word of a unit that belongs to a character is the class of that character. -/
def Exact {α : Type} (encode : ℕ → List α) (wide : Wide) (info : InfoType) (pszSrc : ℕ → α)
    (nLength : ℤ) (call : Option Trace) : Prop :=
  ∃ t, call = some t ∧ (∀ r ∈ t.reads, (r : ℤ) < nLength) ∧ t.written.length = nLength.toNat ∧
    ∀ j c, Scalar c → Belongs encode (textOf pszSrc nLength) j c →
      t.written[j]? = some (typeOf wide info c)

/-- **Classification stays in step with its input**, in both forms; so they give each character of a
valid text the same class. -/
structure InStep (wide : Wide) (info : InfoType) (srcA : ℕ → UInt8) (lengthA : ℤ) (srcW : ℕ → ℕ)
    (lengthW : ℤ) : Prop where
  exactA : Exact utf8 wide info srcA lengthA (getStringTypeExA wide info.toDWORD srcA lengthA)
  exactW : Exact wide.encode wide info srcW lengthW
    (getStringTypeExW wide info.toDWORD srcW lengthW)
  agree : ∀ before c after, (∀ x ∈ before ++ c :: after, Scalar x) →
    textOf srcA lengthA = utf8Text (before ++ c :: after) →
    textOf srcW lengthW = wide.text (before ++ c :: after) →
    ∃ a w type, getStringTypeExA wide info.toDWORD srcA lengthA = some a ∧
      getStringTypeExW wide info.toDWORD srcW lengthW = some w ∧
      a.written[(utf8Text before).length]? = some type ∧
      w.written[(wide.text before).length]? = some type

/-- The characters of a text have one byte each. -/
def Ascii (text : List UInt8) : Prop := ∀ b ∈ text, b.toNat < 0x80

instance decidableAscii (text : List UInt8) : Decidable (Ascii text) :=
  inferInstanceAs (Decidable (∀ _ ∈ _, _))

/-- The second half of a surrogate pair. -/
def IsTrail (uch : ℕ) : Prop := SURROGATE_TRAIL_FIRST ≤ uch ∧ uch ≤ SURROGATE_TRAIL_LAST

instance decidableIsTrail (uch : ℕ) : Decidable (IsTrail uch) :=
  inferInstanceAs (Decidable (_ ∧ _))

/-- A unit that is passed over after a lead, and the unit behind it: what is passed over is the
trail of the lead, or belongs to a character that has the class of the pairs. -/
def PassedOver (info : InfoType) (v : ℕ) (next : Option ℕ) : Prop :=
  if IsTrail v then True
  else if IsLead v then ∀ t ∈ next, IsTrail t → getCharType t info = pairType info
  else v < 0x10000 → getCharType v info = pairType info

/-- **No lead that is met stands at the end**, and what is passed over may be. -/
def Steady16 (info : InfoType) : List ℕ → Prop
  | [] => True
  | [u] => ¬IsLead u
  | u :: v :: us =>
    if IsLead u then PassedOver info v us.head? ∧ Steady16 info us else Steady16 info (v :: us)

def Steady (wide : Wide) (info : InfoType) (text : List ℕ) : Prop :=
  match wide with
  | .utf16 => Steady16 info text
  | .utf32 => True

/-! ### The units of a text -/

theorem belongs_cons {α : Type} {encode : ℕ → List α} {u : α} {s : List α} {j c : ℕ} :
    Belongs encode (u :: s) j c ↔
      (∃ after, u :: s = encode c ++ after ∧ j < (encode c).length) ∨
        ∃ k, j = k + 1 ∧ Belongs encode s k c := by
  constructor
  · rintro ⟨before, after, hs, hle, hlt⟩
    cases before with
    | nil => exact .inl ⟨after, hs, by simpa using hlt⟩
    | cons x before =>
      rw [List.length_cons] at hle hlt
      rw [List.cons_append, List.cons_append] at hs
      exact .inr ⟨j - 1, by omega, before, after, (List.cons.inj hs).2, by omega, by omega⟩
  · rintro (⟨after, hs, hlt⟩ | ⟨k, rfl, before, after, hs, hle, hlt⟩)
    · exact ⟨[], after, hs, Nat.zero_le j, by simpa using hlt⟩
    · refine ⟨u :: before, after, by rw [hs]; rfl, ?_, ?_⟩
      · rw [List.length_cons]
        omega
      · rw [List.length_cons]
        omega

theorem not_belongs_nil {α : Type} {encode : ℕ → List α} {j c : ℕ} (hc : encode c ≠ []) :
    ¬Belongs encode [] j c := by
  rintro ⟨before, after, hs, -, -⟩
  have hnil := List.append_eq_nil_iff.1 hs.symm
  exact hc (List.append_eq_nil_iff.1 hnil.1).2

theorem length_textOf {α : Type} (src : ℕ → α) (n : ℤ) : (textOf src n).length = n.toNat := by
  simp [textOf]

theorem textOf_drop {α : Type} (src : ℕ → α) {n : ℤ} {i : ℕ} (h : (i : ℤ) < n) :
    (textOf src n).drop i = src i :: (textOf src n).drop (i + 1) := by
  have hi : i < (textOf src n).length := by
    rw [length_textOf]
    omega
  rw [List.drop_eq_getElem_cons hi]
  simp [textOf]

theorem textOf_drop_eq_nil {α : Type} (src : ℕ → α) {n : ℤ} {i : ℕ} (h : ¬(i : ℤ) < n) :
    (textOf src n).drop i = [] := by
  refine List.drop_eq_nil_of_le ?_
  rw [length_textOf]
  omega

/-! ### The wide form -/

/-- The words for a text of 16-bit units. -/
def words16 (info : InfoType) : List ℕ → List ℕ
  | [] => []
  | [u] => if IsLead u then [pairType info, pairType info] else [getCharType u info]
  | u :: v :: us =>
    if IsLead u then pairType info :: pairType info :: words16 info us
    else getCharType u info :: words16 info (v :: us)

theorem words16_lead {info : InfoType} {u : ℕ} (h : IsLead u) (s : List ℕ) :
    words16 info (u :: s) = pairType info :: pairType info :: words16 info s.tail := by
  cases s <;> simp [words16, h]

theorem words16_single {info : InfoType} {u : ℕ} (h : ¬IsLead u) (s : List ℕ) :
    words16 info (u :: s) = getCharType u info :: words16 info s := by
  cases s <;> simp [words16, h]

theorem written_rounds_utf16 (info : InfoType) (src : ℕ → ℕ) (n : ℤ) {fuel i : ℕ}
    (hfuel : n ≤ i + fuel) :
    (rounds (roundW .utf16 info src) n fuel i).written =
      words16 info ((textOf src n).drop i) := by
  induction fuel generalizing i with
  | zero =>
    rw [textOf_drop_eq_nil src (by omega)]
    rfl
  | succ fuel ih =>
    rw [rounds]
    by_cases hi : (i : ℤ) < n
    · rw [if_pos hi, textOf_drop src hi]
      by_cases hlead : IsLead (src i)
      · rw [words16_lead hlead, List.tail_drop, ← ih (by omega)]
        simp [roundW, WideCharLength, hlead, List.replicate]
      · rw [words16_single hlead, ← ih (by omega)]
        simp [roundW, WideCharLength, hlead]
    · rw [if_neg hi, textOf_drop_eq_nil src hi]
      rfl

theorem written_rounds_utf32 (info : InfoType) (src : ℕ → ℕ) (n : ℤ) {fuel i : ℕ}
    (hfuel : n ≤ i + fuel) :
    (rounds (roundW .utf32 info src) n fuel i).written =
      ((textOf src n).drop i).map (getCharType · info) := by
  induction fuel generalizing i with
  | zero =>
    rw [textOf_drop_eq_nil src (by omega)]
    rfl
  | succ fuel ih =>
    rw [rounds]
    by_cases hi : (i : ℤ) < n
    · rw [if_pos hi, textOf_drop src hi, List.map_cons, ← ih (by omega)]
      simp [roundW, WideCharLength]
    · rw [if_neg hi, textOf_drop_eq_nil src hi]
      rfl

theorem reads_roundsW (wide : Wide) (info : InfoType) (src : ℕ → ℕ) (n : ℤ) (fuel i : ℕ) :
    ∀ r ∈ (rounds (roundW wide info src) n fuel i).reads, (r : ℤ) < n := by
  induction fuel generalizing i with
  | zero => simp [rounds]
  | succ fuel ih =>
    intro r hr
    rw [rounds] at hr
    by_cases hi : (i : ℤ) < n
    · rw [if_pos hi] at hr
      rcases List.mem_append.1 hr with hr | hr
      · rw [List.mem_singleton.1 hr]
        exact hi
      · exact ih _ r hr
    · rw [if_neg hi] at hr
      cases hr

/-- The words are those of the characters. -/
def Right (info : InfoType) (s words : List ℕ) : Prop :=
  ∀ j c, Scalar c → Belongs Wide.utf16.encode s j c →
    words[j]? = some (typeOf .utf16 info c)

theorem encode_cases {c : ℕ} (hc : Scalar c) :
    (Wide.utf16.encode c = [c] ∧ c < 0x10000 ∧ ¬IsLead c ∧ ¬IsTrail c) ∨
      ∃ u t, Wide.utf16.encode c = [u, t] ∧ IsLead u ∧ IsTrail t := by
  have hlt := hc.lt
  unfold Scalar at hc
  by_cases h : c < 0x10000
  · refine .inl ⟨by simp [Wide.encode, h], h, ?_, ?_⟩
    · unfold IsLead SURROGATE_LEAD_FIRST
      omega
    · unfold IsTrail SURROGATE_TRAIL_FIRST SURROGATE_TRAIL_LAST
      omega
  · refine .inr ⟨_, _, by rw [Wide.encode, if_neg h], ?_, ?_⟩
    · unfold IsLead SURROGATE_LEAD_FIRST
      omega
    · unfold IsTrail SURROGATE_TRAIL_FIRST SURROGATE_TRAIL_LAST
      omega

theorem encode_ne_nil {c : ℕ} (hc : Scalar c) : Wide.utf16.encode c ≠ [] := by
  rcases encode_cases hc with ⟨h, -⟩ | ⟨u, t, h, -⟩ <;> rw [h] <;> simp

theorem not_isTrail_of_isLead {u : ℕ} (h : IsLead u) : ¬IsTrail u := by
  unfold IsLead SURROGATE_LEAD_FIRST at h
  unfold IsTrail SURROGATE_TRAIL_FIRST
  omega

theorem exists_pair {u t : ℕ} (hu : IsLead u) (ht : IsTrail t) :
    ∃ c, Scalar c ∧ Wide.utf16.encode c = [u, t] := by
  unfold IsLead SURROGATE_LEAD_FIRST at hu
  unfold IsTrail SURROGATE_TRAIL_FIRST SURROGATE_TRAIL_LAST at ht
  obtain ⟨a, rfl⟩ : ∃ a, u = 0xD800 + a := ⟨u - 0xD800, by omega⟩
  obtain ⟨b, rfl⟩ : ∃ b, t = 0xDC00 + b := ⟨t - 0xDC00, by omega⟩
  have hdiv : (0x10000 + a * 1024 + b - 0x10000) / 1024 = a := by omega
  have hmod : (0x10000 + a * 1024 + b - 0x10000) % 1024 = b := by omega
  refine ⟨0x10000 + a * 1024 + b, .inr ⟨by omega, by omega⟩, ?_⟩
  rw [Wide.encode, if_neg (by omega), hdiv, hmod]

theorem right_single {info : InfoType} {u : ℕ} (hu : ¬IsLead u) (s w : List ℕ) :
    Right info (u :: s) (getCharType u info :: w) ↔ Right info s w := by
  constructor
  · intro h j c hc hj
    have := h (j + 1) c hc (belongs_cons.2 (.inr ⟨j, rfl, hj⟩))
    rwa [List.getElem?_cons_succ] at this
  · intro h j c hc hj
    rcases belongs_cons.1 hj with ⟨after, hs, hlt⟩ | ⟨k, rfl, hk⟩
    · rcases encode_cases hc with ⟨he, -, -, -⟩ | ⟨u', t, he, hlead, -⟩
      · rw [he] at hs hlt
        have hj0 : j = 0 := by simpa using hlt
        have hcu : u = c := (List.cons.inj hs).1
        rw [hj0, hcu, List.getElem?_cons_zero, typeOf, he]
        rfl
      · rw [he] at hs
        exact absurd ((List.cons.inj hs).1 ▸ hlead) hu
    · rw [List.getElem?_cons_succ]
      exact h k c hc hk

/-- **A lead and the unit that is passed over after it.** -/
theorem right_lead {info : InfoType} {u : ℕ} (hu : IsLead u) (v : ℕ) (us : List ℕ) :
    Right info (u :: v :: us) (pairType info :: pairType info :: words16 info us) ↔
      PassedOver info v us.head? ∧ Right info us (words16 info us) := by
  constructor
  · intro h
    refine ⟨?_, fun j c hc hj => ?_⟩
    · -- the unit after the lead begins a character, or belongs to the lead
      unfold PassedOver
      split_ifs with htrail hlead
      · intro t ht httrail
        obtain ⟨us', rfl⟩ : ∃ us', us = t :: us' := by
          cases us with
          | nil => simp at ht
          | cons x us' => exact ⟨us', by simpa using ht⟩
        obtain ⟨c, hc, hct⟩ := exists_pair hlead httrail
        have hword := h 2 c hc ⟨[u], us', by rw [hct]; rfl, by simp, by rw [hct]; simp⟩
        rw [words16_single fun h => not_isTrail_of_isLead h httrail] at hword
        simpa [typeOf, hct] using hword
      · intro hv
        have hc : Scalar v := by
          unfold IsTrail SURROGATE_TRAIL_FIRST SURROGATE_TRAIL_LAST at htrail
          unfold IsLead SURROGATE_LEAD_FIRST at hlead
          unfold Scalar
          omega
        have he : Wide.utf16.encode v = [v] := by simp [Wide.encode, hv]
        have hword := h 1 v hc ⟨[u], us, by rw [he]; rfl, by simp, by rw [he]; simp⟩
        simpa [typeOf, he] using hword.symm
    · have hword := h (j + 2) c hc (belongs_cons.2 (.inr ⟨j + 1, rfl,
        belongs_cons.2 (.inr ⟨j, rfl, hj⟩)⟩))
      simpa using hword
  · rintro ⟨hv, h⟩ j c hc hj
    rcases belongs_cons.1 hj with ⟨after, hs, hlt⟩ | ⟨k, rfl, hk⟩
    · -- the pair itself
      rcases encode_cases hc with ⟨he, -, hno, -⟩ | ⟨u', t, he, -, -⟩
      · rw [he] at hs
        exact absurd ((List.cons.inj hs).1 ▸ hu) hno
      · rw [he] at hlt
        have hj2 : j = 0 ∨ j = 1 := by
          simp only [List.length_cons, List.length_nil] at hlt
          omega
        rcases hj2 with rfl | rfl <;> simp [typeOf, he]
    · rcases belongs_cons.1 hk with ⟨after, hs, hlt⟩ | ⟨i, rfl, hi⟩
      · unfold PassedOver at hv
        rcases encode_cases hc with ⟨he, hc16, hno, hnot⟩ | ⟨u', t, he, hlead, htrail⟩
        · rw [he] at hs hlt
          have hk0 : k = 0 := by simpa using hlt
          have hvc : v = c := (List.cons.inj hs).1
          subst hvc
          rw [if_neg hnot, if_neg hno] at hv
          rw [hk0]
          simp [typeOf, he, hv hc16]
        · rw [he] at hs hlt
          have hvu : v = u' := (List.cons.inj hs).1
          subst hvu
          have hus : us = t :: after := (List.cons.inj hs).2
          subst hus
          rw [if_neg (not_isTrail_of_isLead hlead), if_pos hlead] at hv
          have hk2 : k = 0 ∨ k = 1 := by
            simp only [List.length_cons, List.length_nil] at hlt
            omega
          rcases hk2 with rfl | rfl
          · simp [typeOf, he]
          · rw [words16_single fun h => not_isTrail_of_isLead h htrail]
            simp [typeOf, he, hv t rfl htrail]
      · simpa using h i c hc hi

/-- **The words for 16-bit units**: as many as there are, and those of the characters. -/
theorem words16_iff (info : InfoType) (s : List ℕ) :
    ((words16 info s).length = s.length ∧ Right info s (words16 info s)) ↔ Steady16 info s := by
  fun_induction Steady16 info s with
  | case1 =>
    exact ⟨fun _ => trivial, fun _ => ⟨rfl, fun j c hc hj =>
      absurd hj (not_belongs_nil (encode_ne_nil hc))⟩⟩
  | case2 u =>
    constructor
    · rintro ⟨hlen, -⟩ hlead
      simp [words16, hlead] at hlen
    · intro hno
      rw [words16_single hno]
      exact ⟨rfl, (right_single hno [] _).2 fun j c hc hj =>
        absurd hj (not_belongs_nil (encode_ne_nil hc))⟩
  | case3 u v us hlead ih =>
    rw [words16_lead hlead, List.tail_cons, right_lead hlead, ← ih]
    simp only [List.length_cons]
    constructor
    · rintro ⟨hlen, hv, h⟩
      exact ⟨hv, by omega, h⟩
    · rintro ⟨hv, hlen, h⟩
      exact ⟨by omega, hv, h⟩
  | case4 u v us hno ih =>
    rw [words16_single hno, right_single hno, ← ih]
    simp only [List.length_cons, Nat.add_right_cancel_iff]

theorem right_utf32 (info : InfoType) (s : List ℕ) {j c : ℕ}
    (hj : Belongs Wide.utf32.encode s j c) :
    (s.map (getCharType · info))[j]? = some (typeOf .utf32 info c) := by
  obtain ⟨before, after, rfl, hle, hlt⟩ := hj
  have hone : Wide.utf32.encode c = [c] := rfl
  rw [hone] at hlt ⊢
  have hj : j = before.length := by
    rw [List.length_singleton] at hlt
    omega
  rw [hj, List.getElem?_map, List.append_assoc, List.getElem?_append_right (Nat.le_refl _)]
  simp [typeOf, hone]

/-- **The `W` form is exact for steady texts.** -/
theorem exactW_iff (wide : Wide) (info : InfoType) (pszSrc : ℕ → ℕ) (nLength : ℤ) :
    Exact wide.encode wide info pszSrc nLength
        (getStringTypeExW wide info.toDWORD pszSrc nLength) ↔
      Steady wide info (textOf pszSrc nLength) := by
  have hcall : getStringTypeExW wide info.toDWORD pszSrc nLength =
      some (rounds (roundW wide info pszSrc) nLength nLength.toNat 0) := by
    rw [getStringTypeExW, InfoType.ofDWORD_toDWORD, Option.map_some]
  have hfuel : nLength ≤ (0 : ℕ) + nLength.toNat := by omega
  have hreads := reads_roundsW wide info pszSrc nLength nLength.toNat 0
  rw [Exact, hcall]
  cases wide with
  | utf16 =>
    have hwords := written_rounds_utf16 info pszSrc nLength hfuel
    rw [List.drop_zero] at hwords
    rw [Steady, ← words16_iff, ← hwords, length_textOf]
    constructor
    · rintro ⟨t, ht, -, hlen, h⟩
      cases ht
      exact ⟨hlen, h⟩
    · rintro ⟨hlen, h⟩
      exact ⟨_, rfl, hreads, hlen, h⟩
  | utf32 =>
    have hwords := written_rounds_utf32 info pszSrc nLength hfuel
    rw [List.drop_zero] at hwords
    refine iff_of_true ⟨_, rfl, hreads, ?_, fun j c _ hj => ?_⟩ trivial
    · rw [hwords, List.length_map, length_textOf]
    · rw [hwords]
      exact right_utf32 info _ hj

/-! ### The byte form -/

theorem WideCharLength_pos (wide : Wide) (ch : ℕ) : 0 < WideCharLength wide ch := by
  unfold WideCharLength
  cases wide with
  | utf16 => split_ifs <;> decide
  | utf32 => exact Nat.one_pos

theorem WideCharLength_le (wide : Wide) (ch : ℕ) : WideCharLength wide ch ≤ 2 := by
  unfold WideCharLength
  cases wide with
  | utf16 => split_ifs <;> decide
  | utf32 => exact Nat.le_succ 1

theorem result_character (wide : Wide) {ch : UInt8} {tail : List UInt8}
    (h : tail.length + 1 = UTF8CharLength ch) (memory : ℕ → ℕ) :
    (multiByteToWideChar wide 0 false (ch :: tail) (some 3)).result memory =
      fromUTF8 wide 0 3 (ch :: tail) := by
  have hle : UTF8CharLength ch ≤ 4 := by
    unfold UTF8CharLength
    split_ifs <;> decide
  have hunits : unitsOf wide ch ≤ 2 := by
    unfold unitsOf
    split_ifs <;> decide
  have hlen : (ch :: tail).length ≤ INT_MAX := by
    rw [List.length_cons, h]
    exact hle.trans (by decide)
  have htl := towstringLength_character wide h []
  rw [List.append_nil] at htl
  have hnil : towstringLength wide [] = 0 := by cases wide <;> rfl
  have hfrom := length_fromUTF8_character wide 0 h [] (3 - unitsOf wide ch)
  rw [List.append_nil, Nat.add_sub_cancel' (hunits.trans (by decide)), fromUTF8_nil] at hfrom
  rw [mb_some wide 0 hlen (by omega)]
  refine result_eq id ?_ (fun _ _ => rfl) rfl memory
  refine toInt_of_le ?_
  rw [hfrom]
  exact (show unitsOf wide ch + 0 ≤ 2 from hunits).trans (by decide)

theorem bytes_eq (src : ℕ → UInt8) (i : ℕ) :
    ∃ tail : List UInt8, (List.range' i (UTF8CharLength (src i))).map src = src i :: tail ∧
      tail.length + 1 = UTF8CharLength (src i) := by
  obtain ⟨k, hk⟩ := Nat.exists_eq_add_of_lt (UTF8CharLength_pos (src i))
  refine ⟨(List.range' (i + 1) k).map src, ?_, ?_⟩
  · rw [hk, Nat.zero_add, List.range'_succ, List.map_cons]
  · rw [List.length_map, List.length_range', hk]
    omega

/-- **A round over a byte that is a character.** -/
theorem roundA_ascii (wide : Wide) (info : InfoType) {src : ℕ → UInt8} {i : ℕ}
    (h : (src i).toNat < 0x80) :
    roundA wide info src i = (⟨[getCharType (src i).toNat info], [i]⟩, 1) := by
  have hl : UTF8CharLength (src i) = 1 := by rw [UTF8CharLength, if_pos h]
  have hunits : fromUTF8 wide 0 3 [src i] = [(src i).toNat] := by
    cases wide <;> simp [fromUTF8, UTF16FromUTF8, UTF32FromUTF8, h]
  have hone : WideCharLength wide (src i).toNat = 1 := by
    cases wide with
    | utf16 =>
      refine if_neg fun hlead => ?_
      have := hlead.1
      unfold SURROGATE_LEAD_FIRST at this
      omega
    | utf32 => rfl
  have hresult : ((multiByteToWideChar wide 0 false [src i] (some 3)).result fun _ => 0) =
      [(src i).toNat] := by
    rw [result_character wide (by simp [hl]), hunits]
  unfold roundA
  simp only [hl, List.range'_one, List.map_cons, List.map_nil, hresult, List.headD_cons, hone]
  simp

/-- **Another round writes more words than it goes on.** -/
theorem roundA_long (wide : Wide) (info : InfoType) {src : ℕ → UInt8} {i : ℕ}
    (h : ¬(src i).toNat < 0x80) :
    (roundA wide info src i).2 < (roundA wide info src i).1.written.length ∧
      0 < (roundA wide info src i).2 := by
  obtain ⟨tail, hbytes, htail⟩ := bytes_eq src i
  have hresult : ((multiByteToWideChar wide 0 false ((List.range' i (UTF8CharLength (src i))).map
      src) (some 3)).result fun _ => 0) = fromUTF8 wide 0 3 (src i :: tail) := by
    rw [hbytes, result_character wide htail]
  refine ⟨?_, WideCharLength_pos _ _⟩
  simp only [roundA, List.length_replicate, hresult]
  by_cases h2 : (src i).toNat < 0x80 + 0x40 + 0x20
  · -- two bytes are no surrogate
    have hl : UTF8CharLength (src i) = 2 := by rw [UTF8CharLength, if_neg h, if_pos h2]
    have hone : WideCharLength wide ((fromUTF8 wide 0 3 (src i :: tail)).headD 0) = 1 := by
      cases wide with
      | utf16 =>
        have hval : (fromUTF8 .utf16 0 3 (src i :: tail)).headD 0 < 0xD800 := by
          simp only [fromUTF8, UTF16FromUTF8, if_neg h, if_pos h2, List.headD_cons, and_1f, and_7f,
            Nat.shiftLeft_eq]
          omega
        refine if_neg fun hlead => ?_
        have := hlead.1
        unfold SURROGATE_LEAD_FIRST at this
        omega
      | utf32 => rfl
    rw [hl, hone]
    decide
  · refine lt_of_le_of_lt (WideCharLength_le _ _) ?_
    rw [UTF8CharLength, if_neg h, if_neg h2]
    split_ifs <;> decide

/-- **The rounds of the byte form**: there are words enough, and no more only if each byte is a
character. -/
theorem rounds_ascii (wide : Wide) (info : InfoType) (src : ℕ → UInt8) (n : ℤ) (fuel : ℕ) {i : ℕ}
    (hfuel : n ≤ i + fuel) :
    (Ascii ((textOf src n).drop i) →
        (rounds (roundA wide info src) n fuel i).written =
          ((textOf src n).drop i).map fun b => getCharType b.toNat info) ∧
      (Ascii ((textOf src n).drop i) →
        ∀ r ∈ (rounds (roundA wide info src) n fuel i).reads, (r : ℤ) < n) ∧
      (n ≤ i + (rounds (roundA wide info src) n fuel i).written.length) ∧
      (¬Ascii ((textOf src n).drop i) →
        n < i + (rounds (roundA wide info src) n fuel i).written.length) := by
  induction fuel generalizing i with
  | zero =>
    rw [textOf_drop_eq_nil src (by omega)]
    refine ⟨fun _ => rfl, fun _ => by simp [rounds], by omega, fun h => absurd ?_ h⟩
    exact fun b hb => absurd hb List.not_mem_nil
  | succ fuel ih =>
    rw [rounds]
    by_cases hi : (i : ℤ) < n
    · rw [if_pos hi, textOf_drop src hi]
      by_cases hb : (src i).toNat < 0x80
      · obtain ⟨hwords, hreads, hle, hlt⟩ := ih (i := i + 1) (by omega)
        rw [roundA_ascii wide info hb]
        simp only [List.singleton_append, List.length_cons]
        have htail : Ascii (src i :: (textOf src n).drop (i + 1)) →
            Ascii ((textOf src n).drop (i + 1)) := fun h b hb => h b (List.mem_cons_of_mem _ hb)
        refine ⟨fun h => ?_, fun h r hr => ?_, by omega, fun h => ?_⟩
        · rw [hwords (htail h), List.map_cons]
        · rcases List.mem_cons.1 hr with rfl | hr
          · exact hi
          · exact hreads (htail h) r hr
        · have := hlt fun h' => h fun b hb' => by
            rcases List.mem_cons.1 hb' with rfl | hb'
            · exact hb
            · exact h' b hb'
          omega
      · obtain ⟨hmore, hpos⟩ := roundA_long wide info hb
        obtain ⟨-, -, hle, -⟩ := ih (i := i + (roundA wide info src i).2) (by omega)
        have hno : ¬Ascii (src i :: (textOf src n).drop (i + 1)) :=
          fun h => hb (h _ List.mem_cons_self)
        simp only [List.length_append]
        exact ⟨fun h => absurd h hno, fun h => absurd h hno, by omega, fun _ => by omega⟩
    · rw [if_neg hi, textOf_drop_eq_nil src hi]
      refine ⟨fun _ => rfl, fun _ => by simp, by simp only [List.length_nil]; omega,
        fun h => absurd ?_ h⟩
      exact fun b hb => absurd hb List.not_mem_nil

theorem Ascii.belongs {s : List UInt8} (h : Ascii s) {j c : ℕ} (hc : Scalar c)
    (hj : Belongs utf8 s j c) : ∃ b, s[j]? = some b ∧ b.toNat = c ∧ c < 0x80 := by
  obtain ⟨before, after, rfl, hle, hlt⟩ := hj
  obtain ⟨b, bs, he, hl, -⟩ := utf8_eq_cons hc
  have hb : b.toNat < 0x80 := h b (by rw [he]; simp)
  rw [UTF8CharLength, if_pos hb] at hl
  obtain rfl : bs = [] := List.length_eq_zero_iff.1 (by omega)
  have hbc : b.toNat = c := by
    unfold utf8 at he
    split_ifs at he with h1 h2 h3
    · obtain ⟨b', he', hb'⟩ := utf8One_eq h1
      rw [he'] at he
      rw [← (List.cons.inj he).1, hb']
    · simp [utf8Two] at he
    · simp [utf8Three] at he
    · simp [utf8Four] at he
  rw [he, List.length_singleton] at hlt
  refine ⟨b, ?_, hbc, hbc ▸ hb⟩
  have hj : j = before.length := by omega
  rw [hj, he, List.append_assoc, List.getElem?_append_right (Nat.le_refl _), Nat.sub_self]
  rfl

/-- **The `A` form is exact for the texts of one-byte characters.** -/
theorem exactA_iff (wide : Wide) (info : InfoType) (pszSrc : ℕ → UInt8) (nLength : ℤ) :
    Exact utf8 wide info pszSrc nLength (getStringTypeExA wide info.toDWORD pszSrc nLength) ↔
      Ascii (textOf pszSrc nLength) := by
  have hcall : getStringTypeExA wide info.toDWORD pszSrc nLength =
      some (rounds (roundA wide info pszSrc) nLength nLength.toNat 0) := by
    rw [getStringTypeExA, InfoType.ofDWORD_toDWORD, Option.map_some]
  have hrounds := rounds_ascii wide info pszSrc nLength nLength.toNat (i := 0) (by omega)
  rw [List.drop_zero] at hrounds
  obtain ⟨hwords, hreads, -, hlt⟩ := hrounds
  rw [Exact, hcall]
  constructor
  · rintro ⟨t, ht, -, hlen, -⟩
    cases ht
    by_contra hno
    have := hlt hno
    have hpos : 0 < nLength := by
      by_contra hle
      refine hno ?_
      rw [textOf, Int.toNat_of_nonpos (by omega)]
      exact fun b hb => absurd hb List.not_mem_nil
    omega
  · intro h
    refine ⟨_, rfl, hreads h, by rw [hwords h, List.length_map, length_textOf], ?_⟩
    intro j c hc hj
    obtain ⟨b, hb, rfl, hlt⟩ := h.belongs hc hj
    have hone : (wide.encode b.toNat).length = 1 := by
      cases wide with
      | utf16 => simp [Wide.encode, show b.toNat < 0x10000 by omega]
      | utf32 => rfl
    rw [hwords h, List.getElem?_map, hb, typeOf, hone]
    rfl

theorem Wide.encode_ne_nil (wide : Wide) (c : ℕ) : wide.encode c ≠ [] := by
  cases wide with
  | utf16 =>
    simp only [Wide.encode]
    split_ifs <;> simp
  | utf32 => simp [Wide.encode]

theorem belongs_flatMap {α : Type} {encode : ℕ → List α} {c : ℕ} (hc : encode c ≠ [])
    (before after : List ℕ) :
    Belongs encode ((before ++ c :: after).flatMap encode) (before.flatMap encode).length c := by
  refine ⟨before.flatMap encode, after.flatMap encode, ?_, Nat.le_refl _, ?_⟩
  · rw [List.flatMap_append, List.flatMap_cons, List.append_assoc]
  · have := List.length_pos_iff.2 hc
    omega

/-- **Classification stays in step** for the texts of one-byte characters and for steady wide
texts. -/
theorem inStep_iff (wide : Wide) (info : InfoType) (srcA : ℕ → UInt8) (lengthA : ℤ)
    (srcW : ℕ → ℕ) (lengthW : ℤ) :
    InStep wide info srcA lengthA srcW lengthW ↔
      Ascii (textOf srcA lengthA) ∧ Steady wide info (textOf srcW lengthW) := by
  constructor
  · intro h
    exact ⟨(exactA_iff wide info srcA lengthA).1 h.exactA,
      (exactW_iff wide info srcW lengthW).1 h.exactW⟩
  · rintro ⟨hA, hW⟩
    have hexactA := (exactA_iff wide info srcA lengthA).2 hA
    have hexactW := (exactW_iff wide info srcW lengthW).2 hW
    refine ⟨hexactA, hexactW, fun before c after hcs htextA htextW => ?_⟩
    obtain ⟨a, ha, -, -, htypeA⟩ := hexactA
    obtain ⟨w, hw, -, -, htypeW⟩ := hexactW
    have hc : Scalar c := hcs c (by simp)
    obtain ⟨b, bs, he, -, -⟩ := utf8_eq_cons hc
    refine ⟨a, w, typeOf wide info c, ha, hw, htypeA _ c hc ?_, htypeW _ c hc ?_⟩
    · rw [htextA]
      exact belongs_flatMap (by rw [he]; simp) before after
    · rw [htextW]
      exact belongs_flatMap (Wide.encode_ne_nil wide c) before after

/-- The two bytes of `é`, and nothing behind them. -/
def sampleBytes (i : ℕ) : UInt8 := if i = 0 then 0xC3 else if i = 1 then 0xA9 else 0

/-- **Two bytes get four words**: the loop goes on by one byte after it has written two words. -/
theorem overrun_two_bytes :
    (getStringTypeExA .utf32 1 sampleBytes 2).map (fun t => t.written.length) = some 4 ∧
      ¬InStep .utf32 .CT_CTYPE1 sampleBytes 2 (fun _ => 0) 0 := by
  refine ⟨by decide +kernel, fun h => ?_⟩
  have hascii := (exactA_iff .utf32 .CT_CTYPE1 sampleBytes 2).1 h.exactA
  exact absurd hascii (by decide +kernel)

end StringType

end Swinx
