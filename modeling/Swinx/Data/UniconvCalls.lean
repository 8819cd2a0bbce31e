import Swinx.Data.Uniconv

/-!
# MultiByteToWideChar and WideCharToMultiByte

The two calls with `CP_UTF8`, for a source with an explicit length.  Each first takes the length of
the result, and if the destination has place for it converts with all the capacity of the
destination.

What a call does is its result, the units it writes with their places in the destination, and how
many units behind the source it reads.  The functions for the lengths test each place before they
read it.  A length is an `int`.

* `sound_multiByteToWideChar_iff` — the conversion from UTF-8 is sound for whole characters.
* `sound_wideCharToMultiByte_iff` — the conversion to UTF-8 is sound for paired surrogates and
  results that have an `int` for their length.
* `roundTrip_text` — all texts are converted to the other form and back.
* `convert_sound_iff` — all this together.
-/

namespace Swinx

namespace Uniconv

/-- `INT_MAX` -/
def INT_MAX : ℕ := 2147483647

/-- A number as an `int`. -/
def toInt (n : ℕ) : ℤ :=
  if n % 4294967296 ≤ INT_MAX then ((n % 4294967296 : ℕ) : ℤ)
  else ((n % 4294967296 : ℕ) : ℤ) - 4294967296

/-- The last error of a call. -/
inductive LastError
  | NO_ERROR
  | ERROR_NO_UNICODE_TRANSLATION
  | ERROR_INSUFFICIENT_BUFFER
  deriving DecidableEq, Repr

/-- What a call does. -/
structure Called (α : Type) where
  ret : ℤ
  /-- The places of the destination that are written, with the units. -/
  writes : List (ℕ × α)
  /-- How many units behind the source are read. -/
  behind : ℕ
  /-- The error that is set. -/
  error : Option LastError
  deriving DecidableEq, Repr

/-- A call that writes nothing. -/
def Called.returns {α : Type} (ret : ℤ) (error : Option LastError) : Called α := ⟨ret, [], 0, error⟩

/-- The units one after the other, each at the place `index` of its number. -/
def writesAt {α : Type} (index : ℕ → ℕ) (units : List α) : List (ℕ × α) :=
  units.zipIdx.map fun u => (index u.2, u.1)

/-- The `NUL` behind the units, if there is place for it. -/
def writesEnd {α : Type} (zero : α) (k capacity : ℕ) : List (ℕ × α) :=
  if k < capacity then [(k, zero)] else []

/-- `unconvertedCharacters` of `UTF16Length` and `UTF32Length`, after `skip` more bytes of a
character. -/
def unconvertedFrom : ℕ → List UInt8 → ℕ
  | _, [] => 0
  | skip + 1, _ :: s => unconvertedFrom skip s
  | 0, ch :: s =>
    if s.length + 1 < UTF8CharLength ch then s.length + 1
    else unconvertedFrom (UTF8CharLength ch - 1) s

/-- How many units a character becomes. -/
def unitsOf (wide : Wide) (ch : UInt8) : ℕ :=
  if wide = .utf16 ∧ UTF8CharLength ch = 4 then 2 else 1

/-- How many bytes behind the source `UTF16FromUTF8` and `UTF32FromUTF8` read with `tlen` more units
in the buffer, after `skip` more bytes of a character. -/
def behindFrom (wide : Wide) : ℕ → ℕ → List UInt8 → ℕ
  | _, skip, [] => skip
  | tlen, skip + 1, _ :: s => behindFrom wide tlen skip s
  | 0, 0, _ :: _ => 0
  | tlen + 1, 0, ch :: s =>
    behindFrom wide (tlen + 1 - unitsOf wide ch) (UTF8CharLength ch - 1) s

def behindFromUTF8 (wide : Wide) (tlen : ℕ) (s : List UInt8) : ℕ := behindFrom wide tlen 0 s

/-- `UTF16FromUTF8` or `UTF32FromUTF8` -/
def fromUTF8 (wide : Wide) (past : UInt8) (tlen : ℕ) (s : List UInt8) : List ℕ :=
  match wide with
  | .utf16 => UTF16FromUTF8 past tlen s
  | .utf32 => UTF32FromUTF8 past tlen s

/-- `MultiByteToWideChar`, with the flag `MB_ERR_INVALID_CHARS` or without it. -/
def multiByteToWideChar (wide : Wide) (past : UInt8) (errInvalidChars : Bool) (src : List UInt8)
    (dst : Option ℕ) : Called ℕ :=
  let bufRequire := toInt (towstringLength wide src)
  let unconverted := unconvertedFrom 0 src ≠ 0
  if unconverted ∧ errInvalidChars then .returns 0 none
  else
    match dst with
    | none => .returns bufRequire (if unconverted then some .ERROR_NO_UNICODE_TRANSLATION else none)
    | some dstLen =>
      if bufRequire > dstLen then .returns 0 (some .ERROR_INSUFFICIENT_BUFFER)
      else
        let units := fromUTF8 wide past dstLen src
        { ret := toInt units.length
          writes := writesAt id units ++ writesEnd 0 units.length dstLen
          behind := behindFromUTF8 wide dstLen src
          error := some .NO_ERROR }

/-- How many units behind the source `UTF8FromUTF16` reads. -/
def behindFromUTF16 : List ℕ → ℕ
  | [] => 0
  | uch :: us =>
    if SURROGATE_LEAD_FIRST ≤ uch ∧ uch ≤ SURROGATE_TRAIL_LAST then
      match us with
      | [] => 1
      | _ :: us => behindFromUTF16 us
    else behindFromUTF16 us

/-- How many units behind the source `UTF8FromUTF16` or `UTF8FromUTF32` reads. -/
def behindToUTF8 (wide : Wide) (us : List ℕ) : ℕ :=
  match wide with
  | .utf16 => behindFromUTF16 us
  | .utf32 => 0

/-- `UTF16toUTF8Length` or `UTF32toUTF8Length` -/
def toUTF8Length (wide : Wide) (us : List ℕ) : ℕ :=
  match wide with
  | .utf16 => UTF16toUTF8Length us
  | .utf32 => UTF32toUTF8Length us

/-- `UTF8FromUTF16` or `UTF8FromUTF32` -/
def toUTF8 (wide : Wide) (past : ℕ) (us : List ℕ) : List UInt8 :=
  match wide with
  | .utf16 => UTF8FromUTF16 past us
  | .utf32 => UTF8FromUTF32 us

/-- `WideCharToMultiByte`, where the places of the destination are counted by an `unsigned int`. -/
def wideCharToMultiByte (wide : Wide) (past : ℕ) (src : List ℕ) (dst : Option ℕ) : Called UInt8 :=
  let bufRequire := toInt (toUTF8Length wide src)
  match dst with
  | none => .returns bufRequire none
  | some dstLen =>
    if bufRequire > dstLen then .returns 0 (some .ERROR_INSUFFICIENT_BUFFER)
    else
      let bytes := toUTF8 wide past src
      { ret := toInt bytes.length
        writes := writesAt (· % 4294967296) bytes ++
          writesEnd 0 (bytes.length % 4294967296) dstLen
        behind := behindToUTF8 wide src
        error := some .NO_ERROR }

/-- The units of the destination after a call, as many as it returned, where `memory` is what the
destination had before. -/
def Called.result {α : Type} (memory : ℕ → α) (c : Called α) : List α :=
  (List.range c.ret.toNat).map
    (c.writes.foldl (fun buffer w => Function.update buffer w.1 w.2) memory)

theorem toInt_of_le {n : ℕ} (h : n ≤ INT_MAX) : toInt n = n := by
  unfold INT_MAX at h
  unfold toInt INT_MAX
  rw [Nat.mod_eq_of_lt (by omega), if_pos h]

theorem toInt_le (n : ℕ) : toInt n ≤ INT_MAX := by
  unfold toInt INT_MAX
  split_ifs <;> omega

/-! ## The destination -/

section Destination

variable {α : Type}

theorem mem_writesAt {index : ℕ → ℕ} {units : List α} {w : ℕ × α} :
    w ∈ writesAt index units ↔ ∃ i, units[i]? = some w.2 ∧ w.1 = index i := by
  simp only [writesAt, List.mem_map, Prod.exists, List.mem_zipIdx_iff_getElem?]
  constructor
  · rintro ⟨u, i, hu, rfl⟩
    exact ⟨i, hu, rfl⟩
  · rintro ⟨i, hu, hi⟩
    exact ⟨w.2, i, hu, Prod.ext hi.symm rfl⟩

theorem mem_writesEnd {zero : α} {k capacity : ℕ} {w : ℕ × α}
    (h : w ∈ writesEnd zero k capacity) : w.1 = k ∧ k < capacity := by
  unfold writesEnd at h
  split_ifs at h with hk
  · exact ⟨congrArg Prod.fst (List.mem_singleton.1 h), hk⟩
  · exact absurd h List.not_mem_nil

/-- Units that are written one after the other from `k` on stand there. -/
theorem foldl_writes (index : ℕ → ℕ) (units : List α) {k : ℕ}
    (h : ∀ i < k + units.length, index i = i) (memory : ℕ → α) (i : ℕ) :
    ((units.zipIdx k).map fun u => (index u.2, u.1)).foldl
        (fun buffer w => Function.update buffer w.1 w.2) memory i =
      if i < k then memory i else units[i - k]?.getD (memory i) := by
  induction units generalizing k memory with
  | nil => simp
  | cons u units ih =>
    rw [List.zipIdx_cons, List.map_cons, List.foldl_cons, ih (by
      intro j hj
      exact h j (by rw [List.length_cons]; omega))]
    simp only [h k (by simp), Function.update_apply]
    rcases Nat.lt_trichotomy i k with hlt | rfl | hgt
    · rw [if_pos (by omega), if_neg (by omega), if_pos hlt]
    · simp
    · rw [if_neg (by omega), if_neg (by omega), if_neg (by omega),
        show i - k = (i - (k + 1)) + 1 by omega, List.getElem?_cons_succ]

/-- **The result of a call that writes the units it returns.** -/
theorem result_eq {c : Called α} (index : ℕ → ℕ) {units : List α} {zero : α} {capacity : ℕ}
    (hret : c.ret = units.length) (hindex : ∀ i < units.length, index i = i)
    (hwrites : c.writes = writesAt index units ++ writesEnd zero units.length capacity)
    (memory : ℕ → α) : c.result memory = units := by
  refine List.ext_getElem? fun i => ?_
  unfold Called.result
  rw [hret, Int.toNat_natCast, List.getElem?_map, hwrites, List.foldl_append]
  by_cases hi : i < units.length
  · rw [List.getElem?_range hi, Option.map_some]
    have hend : ∀ m : ℕ → α, (writesEnd zero units.length capacity).foldl
        (fun buffer w => Function.update buffer w.1 w.2) m i = m i := by
      intro m
      unfold writesEnd
      split_ifs
      · exact Function.update_of_ne (Nat.ne_of_lt hi) zero m
      · rfl
    rw [hend, writesAt, foldl_writes index units (by simpa using hindex),
      if_neg (Nat.not_lt_zero i), Nat.sub_zero, List.getElem?_eq_getElem hi]
    rfl
  · rw [List.getElem?_eq_none (by simpa using hi), List.getElem?_eq_none (by simpa using hi)]
    rfl

end Destination

/-! ## Whole characters -/

/-- **The bytes are characters**, by what their first bytes tell; none is cut off. -/
inductive Whole : List UInt8 → Prop
  | nil : Whole []
  | cons (ch : UInt8) (tail s : List UInt8) :
    tail.length + 1 = UTF8CharLength ch → Whole s → Whole (ch :: (tail ++ s))

theorem UTF8CharLength_pos (ch : UInt8) : 0 < UTF8CharLength ch := by
  unfold UTF8CharLength
  split_ifs <;> decide

/-- Bytes are whole characters, or the last of them is cut off. -/
theorem whole_or_cut (s : List UInt8) : Whole s ∨ ∃ w ch tail, Whole w ∧ s = w ++ ch :: tail ∧
    tail.length + 1 < UTF8CharLength ch := by
  induction hn : s.length using Nat.strong_induction_on generalizing s with
  | _ n ih =>
    subst hn
    match s with
    | [] => exact .inl .nil
    | ch :: s =>
      by_cases hcut : s.length + 1 < UTF8CharLength ch
      · exact .inr ⟨[], ch, s, .nil, rfl, hcut⟩
      · have hpos := UTF8CharLength_pos ch
        have htail : (s.take (UTF8CharLength ch - 1)).length + 1 = UTF8CharLength ch := by
          rw [List.length_take]
          omega
        have hsplit : s.take (UTF8CharLength ch - 1) ++ s.drop (UTF8CharLength ch - 1) = s :=
          List.take_append_drop _ s
        rcases ih _ (by rw [List.length_drop, List.length_cons]; omega)
          (s.drop (UTF8CharLength ch - 1)) rfl with hwhole | ⟨w, ch', tail, hw, hs, hlen⟩
        · left
          have := Whole.cons ch _ _ htail hwhole
          rwa [hsplit] at this
        · refine .inr ⟨_, ch', tail, .cons ch _ w htail hw, ?_, hlen⟩
          rw [List.cons_append, List.append_assoc, ← hs, hsplit]

section Character

variable (wide : Wide) (past : UInt8) {ch : UInt8} {tail : List UInt8}
  (h : tail.length + 1 = UTF8CharLength ch) (s : List UInt8)

include h

theorem towstringLength_character :
    towstringLength wide (ch :: (tail ++ s)) = unitsOf wide ch + towstringLength wide s := by
  have hskip : UTF8CharLength ch - 1 = tail.length := by omega
  have hnot : ¬ (tail ++ s).length + 1 < UTF8CharLength ch := by
    rw [List.length_append]
    omega
  cases wide with
  | utf16 =>
    simp only [towstringLength, UTF16Length, utf16LengthFrom, if_neg hnot, hskip,
      utf16LengthFrom_append, unitsOf, true_and]
  | utf32 =>
    simp only [towstringLength, UTF32Length, utf32LengthFrom, if_neg hnot, hskip,
      utf32LengthFrom_append, unitsOf, reduceCtorEq, false_and, if_false]

theorem unconvertedFrom_character :
    unconvertedFrom 0 (ch :: (tail ++ s)) = unconvertedFrom 0 s := by
  have hnot : ¬ (tail ++ s).length + 1 < UTF8CharLength ch := by
    rw [List.length_append]
    omega
  have happend : ∀ tail : List UInt8,
      unconvertedFrom tail.length (tail ++ s) = unconvertedFrom 0 s := by
    intro tail
    induction tail with
    | nil => rfl
    | cons b tail ih => exact ih
  rw [unconvertedFrom, if_neg hnot, show UTF8CharLength ch - 1 = tail.length by omega, happend]

theorem length_fromUTF8_character (n : ℕ) :
    (fromUTF8 wide past (unitsOf wide ch + n) (ch :: (tail ++ s))).length =
      unitsOf wide ch + (fromUTF8 wide past n s).length := by
  have hdrop : (tail ++ s).drop tail.length = s := List.drop_left
  by_cases h1 : ch.toNat < 0x80
  · have hl : UTF8CharLength ch = 1 := by rw [UTF8CharLength, if_pos h1]
    obtain rfl : tail = [] := List.length_eq_zero_iff.1 (by omega)
    rw [unitsOf, if_neg (by omega), Nat.add_comm 1, Nat.add_comm 1]
    cases wide with
    | utf16 => simp only [fromUTF8, UTF16FromUTF8.eq_def past (n + 1), if_pos h1, List.length_cons,
        List.nil_append]
    | utf32 => simp only [fromUTF8, UTF32FromUTF8, if_pos h1, List.length_cons, List.nil_append]
  by_cases h2 : ch.toNat < 0x80 + 0x40 + 0x20
  · have hl : UTF8CharLength ch = 2 := by rw [UTF8CharLength, if_neg h1, if_pos h2]
    rw [unitsOf, if_neg (by omega), Nat.add_comm 1, Nat.add_comm 1]
    rw [show tail.length = 1 by omega] at hdrop
    cases wide with
    | utf16 => simp only [fromUTF8, UTF16FromUTF8.eq_def past (n + 1), if_neg h1, if_pos h2,
        List.length_cons, hdrop]
    | utf32 => simp only [fromUTF8, UTF32FromUTF8, if_neg h1, if_pos h2, List.length_cons, hdrop]
  by_cases h3 : ch.toNat < 0x80 + 0x40 + 0x20 + 0x10
  · have hl : UTF8CharLength ch = 3 := by rw [UTF8CharLength, if_neg h1, if_neg h2, if_pos h3]
    rw [unitsOf, if_neg (by omega), Nat.add_comm 1, Nat.add_comm 1]
    rw [show tail.length = 2 by omega] at hdrop
    cases wide with
    | utf16 => simp only [fromUTF8, UTF16FromUTF8.eq_def past (n + 1), if_neg h1, if_neg h2,
        if_pos h3, List.length_cons, hdrop]
    | utf32 => simp only [fromUTF8, UTF32FromUTF8, if_neg h1, if_neg h2, if_pos h3,
        List.length_cons, hdrop]
  · have hl : UTF8CharLength ch = 4 := by rw [UTF8CharLength, if_neg h1, if_neg h2, if_neg h3]
    rw [show tail.length = 3 by omega] at hdrop
    cases wide with
    | utf16 =>
      rw [unitsOf, if_pos ⟨rfl, hl⟩, show 2 + n = n + 1 + 1 by omega, Nat.add_comm 2]
      simp only [fromUTF8, UTF16FromUTF8.eq_def past (n + 1 + 1), if_neg h1, if_neg h2, if_neg h3,
        List.length_cons, hdrop]
    | utf32 =>
      rw [unitsOf, if_neg (by simp), Nat.add_comm 1, Nat.add_comm 1]
      simp only [fromUTF8, UTF32FromUTF8, if_neg h1, if_neg h2, if_neg h3, List.length_cons, hdrop]

theorem behindFromUTF8_character (n : ℕ) :
    behindFromUTF8 wide (unitsOf wide ch + n) (ch :: (tail ++ s)) = behindFromUTF8 wide n s := by
  have happend : ∀ tail : List UInt8,
      behindFrom wide n tail.length (tail ++ s) = behindFrom wide n 0 s := by
    intro tail
    induction tail with
    | nil => rfl
    | cons b tail ih => exact ih
  obtain ⟨m, hm⟩ : ∃ m, unitsOf wide ch + n = m + 1 :=
    ⟨unitsOf wide ch + n - 1, by unfold unitsOf; split_ifs <;> omega⟩
  rw [behindFromUTF8, hm, behindFrom, ← hm, Nat.add_sub_cancel_left,
    show UTF8CharLength ch - 1 = tail.length by omega, happend, behindFromUTF8]

end Character

section Whole

variable (wide : Wide) (past : UInt8) {w : List UInt8} (h : Whole w) (s : List UInt8)

include h

theorem Whole.towstringLength_append :
    towstringLength wide (w ++ s) = towstringLength wide w + towstringLength wide s := by
  induction h with
  | nil => cases wide <;> simp [towstringLength, UTF16Length, UTF32Length, utf16LengthFrom,
      utf32LengthFrom]
  | cons ch tail w hlen _ ih =>
    rw [List.cons_append, List.append_assoc, towstringLength_character wide hlen,
      towstringLength_character wide hlen, ih, Nat.add_assoc]

theorem Whole.unconvertedFrom_append : unconvertedFrom 0 (w ++ s) = unconvertedFrom 0 s := by
  induction h with
  | nil => rfl
  | cons ch tail w hlen _ ih =>
    rw [List.cons_append, List.append_assoc, unconvertedFrom_character hlen, ih]

theorem Whole.length_fromUTF8_append (n : ℕ) :
    (fromUTF8 wide past (towstringLength wide w + n) (w ++ s)).length =
      towstringLength wide w + (fromUTF8 wide past n s).length := by
  induction h with
  | nil => cases wide <;> simp [towstringLength, UTF16Length, UTF32Length, utf16LengthFrom,
      utf32LengthFrom]
  | cons ch tail w hlen _ ih =>
    rw [List.cons_append, List.append_assoc, towstringLength_character wide hlen, Nat.add_assoc,
      length_fromUTF8_character wide past hlen, ih, Nat.add_assoc]

theorem Whole.behindFromUTF8_append (n : ℕ) :
    behindFromUTF8 wide (towstringLength wide w + n) (w ++ s) = behindFromUTF8 wide n s := by
  induction h with
  | nil => cases wide <;> simp [towstringLength, UTF16Length, UTF32Length, utf16LengthFrom,
      utf32LengthFrom]
  | cons ch tail w hlen _ ih =>
    rw [List.cons_append, List.append_assoc, towstringLength_character wide hlen, Nat.add_assoc,
      behindFromUTF8_character wide hlen, ih]

end Whole

theorem fromUTF8_nil (wide : Wide) (past : UInt8) (n : ℕ) : fromUTF8 wide past n [] = [] := by
  cases wide <;> cases n <;> rfl

theorem behindFromUTF8_nil (wide : Wide) (n : ℕ) : behindFromUTF8 wide n [] = 0 := by
  rw [behindFromUTF8, behindFrom]

/-- A buffer with place for one more unit makes the converter read behind the source. -/
theorem behindFromUTF8_cut (wide : Wide) {ch : UInt8} {tail : List UInt8}
    (h : tail.length + 1 < UTF8CharLength ch) : 0 < behindFromUTF8 wide 1 (ch :: tail) := by
  have hshort : ∀ (tail : List UInt8) (tlen skip : ℕ), tail.length < skip →
      0 < behindFrom wide tlen skip tail := by
    intro tail
    induction tail with
    | nil => exact fun _ _ h => by simpa [behindFrom] using h
    | cons b tail ih =>
      intro tlen skip h
      obtain ⟨skip, rfl⟩ := Nat.exists_eq_succ_of_ne_zero (show skip ≠ 0 by omega)
      exact ih tlen skip (Nat.lt_of_succ_lt_succ h)
  rw [behindFromUTF8, behindFrom]
  exact hshort tail _ _ (by omega)

theorem unconvertedFrom_cut {ch : UInt8} {tail : List UInt8}
    (h : tail.length + 1 < UTF8CharLength ch) : unconvertedFrom 0 (ch :: tail) ≠ 0 := by
  rw [unconvertedFrom, if_pos h]
  omega

theorem towstringLength_cut (wide : Wide) {ch : UInt8} {tail : List UInt8}
    (h : tail.length + 1 < UTF8CharLength ch) : towstringLength wide (ch :: tail) ≤ 1 := by
  cases wide with
  | utf16 =>
    simp only [towstringLength, UTF16Length, utf16LengthFrom, if_pos h]
    split_ifs <;> omega
  | utf32 => simp only [towstringLength, UTF32Length, utf32LengthFrom, if_pos h, Nat.zero_le]

/-! ## Paired surrogates -/

/-- Half a surrogate pair. -/
def IsSurrogate (uch : ℕ) : Prop := SURROGATE_LEAD_FIRST ≤ uch ∧ uch ≤ SURROGATE_TRAIL_LAST

instance decidableIsSurrogate (uch : ℕ) : Decidable (IsSurrogate uch) := by
  unfold IsSurrogate
  infer_instance

/-- **A unit follows each surrogate** that is not itself the second of two. -/
inductive Paired : List ℕ → Prop
  | nil : Paired []
  | single (uch : ℕ) (us : List ℕ) : ¬ IsSurrogate uch → Paired us → Paired (uch :: us)
  | pair (uch trail : ℕ) (us : List ℕ) : IsSurrogate uch → Paired us → Paired (uch :: trail :: us)

theorem behindFromUTF16_eq_zero_iff (us : List ℕ) : behindFromUTF16 us = 0 ↔ Paired us := by
  fun_induction behindFromUTF16 us with
  | case1 => exact ⟨fun _ => .nil, fun _ => rfl⟩
  | case2 uch hs =>
    refine ⟨fun h => absurd h (by decide), fun h => ?_⟩
    cases h with
    | single _ _ hno _ => exact absurd hs hno
  | case3 uch hs trail us ih =>
    rw [ih]
    refine ⟨.pair uch trail us hs, fun h => ?_⟩
    cases h with
    | single _ _ hno _ => exact absurd hs hno
    | pair _ _ _ _ hus => exact hus
  | case4 uch us hno ih =>
    rw [ih]
    refine ⟨.single uch us hno, fun h => ?_⟩
    cases h with
    | single _ _ _ hus => exact hus
    | pair _ _ _ hs _ => exact absurd hs hno

/-! ## Sound calls -/

/-- **A call with a destination agrees with the one for the length and stays in its buffers**, for
every capacity. -/
structure SoundCall {α : Type} (call : Option ℕ → Called α) : Prop where
  /-- The call for the length writes nothing and reads the source. -/
  length : (call none).writes = [] ∧ (call none).behind = 0
  fits : ∀ capacity ≤ INT_MAX, (call none).ret ≤ capacity →
    (call (some capacity)).ret = (call none).ret ∧
      (∀ w ∈ (call (some capacity)).writes, w.1 < capacity) ∧ (call (some capacity)).behind = 0
  short : ∀ capacity ≤ INT_MAX, (capacity : ℤ) < (call none).ret →
    call (some capacity) = .returns 0 (some .ERROR_INSUFFICIENT_BUFFER)

theorem mb_none (wide : Wide) (past : UInt8) {src : List UInt8} (hlen : src.length ≤ INT_MAX) :
    (multiByteToWideChar wide past false src none).ret = towstringLength wide src := by
  have := (towstringLength_le wide src).trans hlen
  simp [multiByteToWideChar, Called.returns, toInt_of_le this]

theorem mb_some (wide : Wide) (past : UInt8) {src : List UInt8} (hlen : src.length ≤ INT_MAX)
    {capacity : ℕ} (h : towstringLength wide src ≤ capacity) :
    multiByteToWideChar wide past false src (some capacity) =
      { ret := toInt (fromUTF8 wide past capacity src).length
        writes := writesAt id (fromUTF8 wide past capacity src) ++
          writesEnd 0 (fromUTF8 wide past capacity src).length capacity
        behind := behindFromUTF8 wide capacity src
        error := some .NO_ERROR } := by
  have hint := (towstringLength_le wide src).trans hlen
  have hnot : ¬ toInt (towstringLength wide src) > capacity := by
    rw [toInt_of_le hint]
    omega
  simp only [multiByteToWideChar, Bool.false_eq_true, and_false, if_false, if_neg hnot]

theorem mb_short (wide : Wide) (past : UInt8) {src : List UInt8} (hlen : src.length ≤ INT_MAX)
    {capacity : ℕ} (h : capacity < towstringLength wide src) :
    multiByteToWideChar wide past false src (some capacity) =
      .returns 0 (some .ERROR_INSUFFICIENT_BUFFER) := by
  have hint := (towstringLength_le wide src).trans hlen
  have hgt : toInt (towstringLength wide src) > capacity := by
    rw [toInt_of_le hint]
    omega
  simp only [multiByteToWideChar, Bool.false_eq_true, and_false, if_false, if_pos hgt]

theorem mb_of_whole (wide : Wide) (past : UInt8) (errInvalidChars : Bool) {src : List UInt8}
    (h : Whole src) :
    multiByteToWideChar wide past errInvalidChars src =
      multiByteToWideChar wide past false src := by
  have hzero : unconvertedFrom 0 src = 0 := by
    have := h.unconvertedFrom_append []
    rwa [List.append_nil] at this
  funext dst
  simp [multiByteToWideChar, hzero]

theorem writes_lt {α : Type} {index : ℕ → ℕ} {units : List α} {zero : α} {capacity : ℕ}
    (hindex : ∀ i < units.length, index i = i) (hlen : units.length ≤ capacity) :
    ∀ w ∈ writesAt index units ++ writesEnd zero units.length capacity, w.1 < capacity := by
  intro w hw
  rcases List.mem_append.1 hw with hw | hw
  · obtain ⟨i, hi, hw⟩ := mem_writesAt.1 hw
    obtain ⟨hi, -⟩ := List.getElem?_eq_some_iff.1 hi
    rw [hw, hindex i hi]
    omega
  · obtain ⟨hw, hk⟩ := mem_writesEnd hw
    omega

theorem Whole.sound (wide : Wide) (past : UInt8) {src : List UInt8} (h : Whole src)
    (hlen : src.length ≤ INT_MAX) : SoundCall (multiByteToWideChar wide past false src) := by
  have hint := (towstringLength_le wide src).trans hlen
  have hret := mb_none wide past hlen
  refine ⟨⟨?_, ?_⟩, fun capacity _ hcap => ?_, fun capacity _ hcap => ?_⟩
  · simp [multiByteToWideChar, Called.returns]
  · simp [multiByteToWideChar, Called.returns]
  · rw [hret, Nat.cast_le] at hcap
    obtain ⟨m, rfl⟩ := Nat.le.dest hcap
    have hunits : (fromUTF8 wide past (towstringLength wide src + m) src).length =
        towstringLength wide src := by
      have := h.length_fromUTF8_append wide past [] m
      rwa [List.append_nil, fromUTF8_nil] at this
    have hbehind : behindFromUTF8 wide (towstringLength wide src + m) src = 0 := by
      have := h.behindFromUTF8_append wide [] m
      rwa [List.append_nil, behindFromUTF8_nil] at this
    rw [mb_some wide past hlen hcap, hret]
    refine ⟨?_, writes_lt (fun _ _ => rfl) (by omega), hbehind⟩
    simp only [hunits, toInt_of_le hint]
  · rw [hret, Nat.cast_lt] at hcap
    exact mb_short wide past hlen hcap

/-- With place for one unit more than the whole characters have, the call reads behind a source
that ends within a character. -/
theorem not_sound_of_cut (wide : Wide) (past : UInt8) {w tail : List UInt8} {ch : UInt8}
    (hw : Whole w) (hcut : tail.length + 1 < UTF8CharLength ch)
    (hlen : (w ++ ch :: tail).length ≤ INT_MAX) :
    ¬ SoundCall (multiByteToWideChar wide past false (w ++ ch :: tail)) := by
  intro h
  have hle := towstringLength_le wide w
  have hone := towstringLength_cut wide hcut
  have hcap : towstringLength wide (w ++ ch :: tail) ≤ towstringLength wide w + 1 := by
    rw [hw.towstringLength_append]
    omega
  rw [List.length_append, List.length_cons] at hlen
  have hcall := h.fits (towstringLength wide w + 1) (by omega) (by
    rw [mb_none wide past (by simpa using hlen)]
    exact_mod_cast hcap)
  rw [mb_some wide past (by simpa using hlen) hcap] at hcall
  have hbehind := hcall.2.2
  simp only [hw.behindFromUTF8_append] at hbehind
  have := behindFromUTF8_cut wide hcut
  omega

/-- **The conversion from UTF-8 is sound for whole characters**, and if it refuses others. -/
theorem sound_multiByteToWideChar_iff (wide : Wide) (past : UInt8) (errInvalidChars : Bool)
    {src : List UInt8} (hlen : src.length ≤ INT_MAX) :
    SoundCall (multiByteToWideChar wide past errInvalidChars src) ↔
      errInvalidChars = true ∨ Whole src := by
  rcases whole_or_cut src with hwhole | ⟨w, ch, tail, hw, rfl, hcut⟩
  · rw [mb_of_whole wide past errInvalidChars hwhole]
    exact iff_of_true (hwhole.sound wide past hlen) (.inr hwhole)
  · have hne : unconvertedFrom 0 (w ++ ch :: tail) ≠ 0 := by
      rw [hw.unconvertedFrom_append]
      exact unconvertedFrom_cut hcut
    cases errInvalidChars with
    | true =>
      have hrefused : ∀ dst, multiByteToWideChar wide past true (w ++ ch :: tail) dst =
          .returns 0 none := fun dst => by simp [multiByteToWideChar, hne]
      refine iff_of_true ⟨?_, fun capacity _ _ => ?_, fun capacity _ h => ?_⟩ (.inl rfl)
      · simp [hrefused, Called.returns]
      · simp [hrefused, Called.returns]
      · rw [hrefused] at h
        exact absurd h (by simp [Called.returns])
    | false =>
      refine iff_of_false (not_sound_of_cut wide past hw hcut hlen) ?_
      rintro (h | h)
      · cases h
      · apply hne
        have := h.unconvertedFrom_append []
        rwa [List.append_nil] at this

theorem length_toUTF8 (wide : Wide) (past : ℕ) (src : List ℕ) :
    (toUTF8 wide past src).length = toUTF8Length wide src := by
  cases wide with
  | utf16 => exact length_UTF8FromUTF16 past src
  | utf32 => exact length_UTF8FromUTF32 src

theorem wc_some (wide : Wide) (past : ℕ) {src : List ℕ} {capacity : ℕ}
    (h : toInt (toUTF8Length wide src) ≤ capacity) :
    wideCharToMultiByte wide past src (some capacity) =
      { ret := toInt (toUTF8Length wide src)
        writes := writesAt (· % 4294967296) (toUTF8 wide past src) ++
          writesEnd 0 (toUTF8Length wide src % 4294967296) capacity
        behind := behindToUTF8 wide src
        error := some .NO_ERROR } := by
  simp only [wideCharToMultiByte, if_neg (not_lt.2 h), length_toUTF8]

theorem mod_of_length {wide : Wide} {past : ℕ} {src : List ℕ}
    (h : toUTF8Length wide src ≤ INT_MAX) :
    ∀ i < (toUTF8 wide past src).length, i % 4294967296 = i := by
  intro i hi
  rw [length_toUTF8] at hi
  unfold INT_MAX at h
  exact Nat.mod_eq_of_lt (by omega)

/-- A result that is too long for an `int` is written behind the destination, where the call says
that there is place for it. -/
theorem not_sound_of_long (wide : Wide) (past : ℕ) {src : List ℕ}
    (h : INT_MAX < toUTF8Length wide src) : ¬ SoundCall (wideCharToMultiByte wide past src) := by
  intro hsound
  have hle := toInt_le (toUTF8Length wide src)
  have hcall := hsound.fits (toInt (toUTF8Length wide src)).toNat (by omega)
    (Int.self_le_toNat _)
  rw [wc_some wide past (Int.self_le_toNat _)] at hcall
  have hi : (toInt (toUTF8Length wide src)).toNat < (toUTF8 wide past src).length := by
    rw [length_toUTF8]
    omega
  have hmem := List.mem_append_left
    (writesEnd 0 (toUTF8Length wide src % 4294967296) (toInt (toUTF8Length wide src)).toNat)
    (mem_writesAt.2 ⟨_, List.getElem?_eq_getElem hi, rfl⟩ : (_, (toUTF8 wide past src)[_]) ∈
      writesAt (· % 4294967296) (toUTF8 wide past src))
  have hlt := hcall.2.1 _ hmem
  have hmod : (toInt (toUTF8Length wide src)).toNat % 4294967296 =
      (toInt (toUTF8Length wide src)).toNat := by
    unfold INT_MAX at hle
    exact Nat.mod_eq_of_lt (by omega)
  simp only [hmod] at hlt
  omega

/-- **The conversion to UTF-8 is sound** if its result has an `int` for its length and no surrogate
is cut off. -/
theorem sound_wideCharToMultiByte_iff (wide : Wide) (past : ℕ) (src : List ℕ) :
    SoundCall (wideCharToMultiByte wide past src) ↔
      toUTF8Length wide src ≤ INT_MAX ∧ (wide = .utf16 → Paired src) := by
  by_cases hint : toUTF8Length wide src ≤ INT_MAX
  · have hret : toInt (toUTF8Length wide src) = toUTF8Length wide src := toInt_of_le hint
    have hnone : (wideCharToMultiByte wide past src none).ret = toUTF8Length wide src := hret
    have hmod : toUTF8Length wide src % 4294967296 = (toUTF8 wide past src).length := by
      unfold INT_MAX at hint
      rw [length_toUTF8, Nat.mod_eq_of_lt (by omega)]
    constructor
    · intro h
      refine ⟨hint, ?_⟩
      rintro rfl
      have hcall := h.fits _ hint (le_of_eq hnone)
      rw [wc_some _ past (le_of_eq hret)] at hcall
      exact (behindFromUTF16_eq_zero_iff src).1 hcall.2.2
    · rintro ⟨-, hpaired⟩
      refine ⟨⟨rfl, rfl⟩, fun capacity _ hcap => ?_, fun capacity _ hcap => ?_⟩
      · rw [hnone] at hcap ⊢
        rw [wc_some wide past (hret.trans_le hcap)]
        refine ⟨hret, ?_, ?_⟩
        · rw [hmod]
          refine writes_lt (mod_of_length hint) ?_
          rw [length_toUTF8]
          exact_mod_cast hcap
        · cases wide with
          | utf16 => exact (behindFromUTF16_eq_zero_iff src).2 (hpaired rfl)
          | utf32 => rfl
      · rw [hnone] at hcap
        simp only [wideCharToMultiByte, hret, if_pos hcap]
  · exact iff_of_false (not_sound_of_long wide past (Nat.lt_of_not_le hint)) fun h => hint h.1

/-! ## Texts -/

theorem fromUTF8_text (wide : Wide) (past : UInt8) {cs : List ℕ} (hcs : ∀ c ∈ cs, Scalar c)
    (n : ℕ) : fromUTF8 wide past ((wide.text cs).length + n) (utf8Text cs) = wide.text cs := by
  induction cs with
  | nil => exact fromUTF8_nil wide past _
  | cons c cs ih =>
    have hc := hcs c List.mem_cons_self
    have := ih fun c' hc' => hcs c' (List.mem_cons_of_mem c hc')
    rw [Wide.text_cons, utf8Text_cons, List.length_append, Nat.add_assoc]
    cases wide with
    | utf16 => exact (UTF16FromUTF8_utf8 hc past _ _).trans (congrArg _ this)
    | utf32 => exact (UTF32FromUTF8_utf8 hc past _ _).trans (congrArg _ this)

theorem toUTF8_text (wide : Wide) (past : ℕ) {cs : List ℕ} (hcs : ∀ c ∈ cs, Scalar c) :
    toUTF8 wide past (wide.text cs) = utf8Text cs := by
  have h := tostring_text wide past hcs []
  rw [List.append_nil, tostring_eq, tostring_eq] at h
  cases wide with
  | utf16 => simpa [toUTF8, UTF8FromUTF16] using h
  | utf32 => simpa [toUTF8, UTF8FromUTF32] using h

theorem whole_utf8Text {cs : List ℕ} (hcs : ∀ c ∈ cs, Scalar c) : Whole (utf8Text cs) := by
  induction cs with
  | nil => exact .nil
  | cons c cs ih =>
    obtain ⟨b, bs, he, hlen, -⟩ := utf8_eq_cons (hcs c List.mem_cons_self)
    rw [utf8Text_cons, he, List.cons_append]
    exact .cons b bs _ hlen.symm (ih fun c' hc' => hcs c' (List.mem_cons_of_mem c hc'))

/-- **A text in UTF-8 is converted into its wide form**, by every destination that is long
enough. -/
theorem multiByteToWideChar_text (wide : Wide) (past : UInt8) (errInvalidChars : Bool)
    {cs : List ℕ} (hcs : ∀ c ∈ cs, Scalar c) (hlen : (utf8Text cs).length ≤ INT_MAX)
    {capacity : ℕ} (hcap : (wide.text cs).length ≤ capacity) (memory : ℕ → ℕ) :
    (multiByteToWideChar wide past errInvalidChars (utf8Text cs) (some capacity)).result memory =
      wide.text cs := by
  have htext := towstringLength_text wide hcs
  obtain ⟨n, rfl⟩ := Nat.le.dest hcap
  rw [mb_of_whole wide past errInvalidChars (whole_utf8Text hcs),
    mb_some wide past hlen (htext.trans_le hcap), fromUTF8_text wide past hcs]
  refine result_eq id ?_ (fun _ _ => rfl) rfl memory
  exact toInt_of_le (htext.symm.trans_le ((towstringLength_le wide _).trans hlen))

/-- **A text in its wide form is converted into UTF-8**, by every destination that is long
enough. -/
theorem wideCharToMultiByte_text (wide : Wide) (past : ℕ) {cs : List ℕ}
    (hcs : ∀ c ∈ cs, Scalar c) (hlen : (utf8Text cs).length ≤ INT_MAX) {capacity : ℕ}
    (hcap : (utf8Text cs).length ≤ capacity) (memory : ℕ → UInt8) :
    (wideCharToMultiByte wide past (wide.text cs) (some capacity)).result memory =
      utf8Text cs := by
  have htext := toUTF8_text wide past hcs
  have hbytes : toUTF8Length wide (wide.text cs) = (utf8Text cs).length := by
    rw [← length_toUTF8 wide past, htext]
  have hret : toInt (utf8Text cs).length = (utf8Text cs).length := toInt_of_le hlen
  rw [wc_some wide past (by rw [hbytes, hret]; exact_mod_cast hcap), htext, hbytes]
  have hmod : ∀ i, i ≤ (utf8Text cs).length → i % 4294967296 = i := by
    intro i hi
    unfold INT_MAX at hlen
    exact Nat.mod_eq_of_lt (by omega)
  exact result_eq _ hret (fun i hi => hmod i hi.le) (by rw [hmod _ le_rfl]) memory

/-- **A text is converted to the other form and back**, with any destinations for which the calls
do not fail. -/
structure RoundTrip (wide : Wide) (cs : List ℕ) : Prop where
  fromBytes : ∀ past errInvalidChars past' memory memory' capacity capacity',
    (multiByteToWideChar wide past errInvalidChars (utf8Text cs) none).ret ≤ (capacity : ℕ) →
    let units := (multiByteToWideChar wide past errInvalidChars (utf8Text cs)
      (some capacity)).result memory
    (wideCharToMultiByte wide past' units none).ret ≤ (capacity' : ℕ) →
      (wideCharToMultiByte wide past' units (some capacity')).result memory' = utf8Text cs
  fromUnits : ∀ past errInvalidChars past' memory memory' capacity capacity',
    (wideCharToMultiByte wide past' (wide.text cs) none).ret ≤ (capacity' : ℕ) →
    let bytes := (wideCharToMultiByte wide past' (wide.text cs) (some capacity')).result memory'
    (multiByteToWideChar wide past errInvalidChars bytes none).ret ≤ (capacity : ℕ) →
      (multiByteToWideChar wide past errInvalidChars bytes (some capacity)).result memory =
        wide.text cs

theorem roundTrip_text (wide : Wide) {cs : List ℕ} (hcs : ∀ c ∈ cs, Scalar c)
    (hlen : (utf8Text cs).length ≤ INT_MAX) : RoundTrip wide cs := by
  have hunits : ∀ past errInvalidChars,
      (multiByteToWideChar wide past errInvalidChars (utf8Text cs) none).ret =
        (wide.text cs).length := by
    intro past errInvalidChars
    rw [mb_of_whole wide past errInvalidChars (whole_utf8Text hcs), mb_none wide past hlen,
      towstringLength_text wide hcs]
  have hbytes : ∀ past, (wideCharToMultiByte wide past (wide.text cs) none).ret =
      (utf8Text cs).length := by
    intro past
    have h : toUTF8Length wide (wide.text cs) = (utf8Text cs).length := by
      rw [← length_toUTF8 wide past, toUTF8_text wide past hcs]
    exact (congrArg toInt h).trans (toInt_of_le hlen)
  constructor
  · intro past errInvalidChars past' memory memory' capacity capacity' hcap
    rw [hunits, Nat.cast_le] at hcap
    simp only [multiByteToWideChar_text wide past errInvalidChars hcs hlen hcap memory, hbytes,
      Nat.cast_le]
    exact fun hcap' => wideCharToMultiByte_text wide past' hcs hlen hcap' memory'
  · intro past errInvalidChars past' memory memory' capacity capacity' hcap'
    rw [hbytes, Nat.cast_le] at hcap'
    simp only [wideCharToMultiByte_text wide past' hcs hlen hcap' memory', hunits, Nat.cast_le]
    exact fun hcap => multiByteToWideChar_text wide past errInvalidChars hcs hlen hcap memory

/-- **When the conversions are sound**: from UTF-8 for whole characters, or if others are refused,
to UTF-8 for paired surrogates and a result that has an `int` for its length; and texts make the
round trip. -/
theorem convert_sound_iff (wide : Wide) :
    (∀ past errInvalidChars src, src.length ≤ INT_MAX →
      (SoundCall (multiByteToWideChar wide past errInvalidChars src) ↔
        errInvalidChars = true ∨ Whole src)) ∧
    (∀ past src, SoundCall (wideCharToMultiByte wide past src) ↔
      toUTF8Length wide src ≤ INT_MAX ∧ (wide = .utf16 → Paired src)) ∧
    ∀ cs, (∀ c ∈ cs, Scalar c) → (utf8Text cs).length ≤ INT_MAX → RoundTrip wide cs :=
  ⟨fun past errInvalidChars _ hlen => sound_multiByteToWideChar_iff wide past errInvalidChars hlen,
    sound_wideCharToMultiByte_iff wide, fun _ hcs hlen => roundTrip_text wide hcs hlen⟩

/-- A letter with two bytes is converted soundly, both ways and there and back. -/
theorem convert_sound_letter :
    SoundCall (multiByteToWideChar .utf16 0 false [0xC3, 0xA4]) ∧
      SoundCall (wideCharToMultiByte .utf16 0 [0xE4]) ∧ RoundTrip .utf16 [0xE4] := by
  obtain ⟨hfrom, hto, hround⟩ := convert_sound_iff .utf16
  refine ⟨(hfrom 0 false _ (by decide)).2 (.inr (.cons 0xC3 [0xA4] [] rfl .nil)),
    (hto 0 _).2 ⟨by decide, fun _ => .single 0xE4 [] (by decide) .nil⟩,
    hround _ (by unfold Scalar; decide) (by decide)⟩

/-- A character of four bytes of which there is only the first is counted as one unit, and two
units are written to a buffer of one; a lead surrogate at the end is taken together with the unit
behind the source. -/
theorem convert_not_sound :
    (multiByteToWideChar .utf16 0 false [0xF0] none).ret = 1 ∧
    ((multiByteToWideChar .utf16 0 false [0xF0] (some 1)).writes.map Prod.fst) = [0, 1] ∧
    (multiByteToWideChar .utf32 0 false [0xE2, 0x82] (some 1)).behind = 1 ∧
    (wideCharToMultiByte .utf16 0 [0xD83D] (some 4)).behind = 1 ∧
    ¬ SoundCall (multiByteToWideChar .utf16 0 false [0xF0]) ∧
    ¬ SoundCall (multiByteToWideChar .utf32 0 false [0xE2, 0x82]) ∧
    ¬ SoundCall (wideCharToMultiByte .utf16 0 [0xD83D]) := by
  refine ⟨by decide, by decide, by decide, by decide, fun h => ?_, fun h => ?_, fun h => ?_⟩
  · exact absurd (h.fits 1 (by decide) (by decide)).2.2 (by decide)
  · exact absurd (h.fits 1 (by decide) (by decide)).2.2 (by decide)
  · exact absurd (h.fits 4 (by decide) (by decide)).2.2 (by decide)

end Uniconv

end Swinx
