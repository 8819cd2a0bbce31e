import Mathlib

/-!
# Bytes, C strings and C library functions

What programs do to texts that are sequences of bytes: `find` with the two halves around the byte
found (`breakOn`), reading a file line by line into a buffer (`fgets`, `readLines`), and reading a
number (`strtoul`, with a 64-bit `unsigned long`) that `snprintf` has written (`formatHex`,
`formatDec`).

* `readLines_line` — a line that fits the buffer is read in one piece.
* `strtoul_append` — `strtoul` reads the digits in front of a byte that is none.
* `ofDigits_formatHex`, `ofDigits_formatDec` — what `snprintf` writes has the right value.
-/

namespace Swinx

/-- A sequence of bytes. -/
abbrev Bytes := List UInt8

/-- The bytes of an ASCII text. -/
def ascii (s : String) : Bytes := s.toList.map fun c => c.toNat.toUInt8

instance linearOrderUInt8 : LinearOrder UInt8 where
  le_refl := UInt8.le_refl
  le_trans _ _ _ := UInt8.le_trans
  le_antisymm _ _ := UInt8.le_antisymm
  le_total := UInt8.le_total
  lt_iff_le_not_ge a b := by
    rw [UInt8.not_le]
    exact ⟨fun h => ⟨UInt8.le_of_lt h, h⟩, fun h => h.2⟩
  toDecidableLE := inferInstance
  toDecidableLT := inferInstance
  toDecidableEq := inferInstance

instance linearOrderUInt32 : LinearOrder UInt32 where
  le_refl := UInt32.le_refl
  le_trans _ _ _ := UInt32.le_trans
  le_antisymm _ _ := UInt32.le_antisymm
  le_total := UInt32.le_total
  lt_iff_le_not_ge a b := by
    rw [UInt32.not_le]
    exact ⟨fun h => ⟨UInt32.le_of_lt h, h⟩, fun h => h.2⟩
  toDecidableLE := inferInstance
  toDecidableLT := inferInstance
  toDecidableEq := inferInstance

/-- The string at a pointer: the bytes in front of the first NUL. -/
def cstr (s : Bytes) : Bytes := s.takeWhile (· ≠ 0)

theorem zero_notMem_cstr (s : Bytes) : 0 ∉ cstr s := fun h => by
  simpa using List.mem_takeWhile_imp h

theorem takeWhile_ne_append_of_mem {c : UInt8} {s t : Bytes} (h : c ∈ s) :
    (s ++ t).takeWhile (· ≠ c) = s.takeWhile (· ≠ c) := by
  induction s with
  | nil => cases h
  | cons d s ih =>
    by_cases hd : d = c
    · simp [hd]
    · have hs : c ∈ s := (List.mem_cons.1 h).resolve_left fun he => hd he.symm
      simpa [hd] using ih hs

theorem takeWhile_ne_eq_self {c : UInt8} {s : Bytes} (h : c ∉ s) : s.takeWhile (· ≠ c) = s :=
  List.takeWhile_eq_self_iff.2 fun b hb => by
    simp only [ne_eq, decide_not, Bool.not_eq_eq_eq_not, Bool.not_true, decide_eq_false_iff_not]
    rintro rfl
    exact h hb

theorem cstr_eq_self {s : Bytes} (h : 0 ∉ s) : cstr s = s := takeWhile_ne_eq_self h

/-- The bytes in front of the first `c`, and those behind it. -/
def breakOn (c : UInt8) (s : Bytes) : Option (Bytes × Bytes) :=
  match s.dropWhile (· ≠ c) with
  | [] => none
  | _ :: rest => some (s.takeWhile (· ≠ c), rest)

theorem breakOn_append {c : UInt8} {s rest : Bytes} (h : c ∉ s) :
    breakOn c (s ++ c :: rest) = some (s, rest) := by
  have hs : ∀ b ∈ s, decide (b ≠ c) = true := by
    intro b hb
    simp only [ne_eq, decide_not, Bool.not_eq_eq_eq_not, Bool.not_true, decide_eq_false_iff_not]
    rintro rfl
    exact h hb
  have hd : (s ++ c :: rest).dropWhile (· ≠ c) = c :: rest := by
    rw [List.dropWhile_append_of_pos hs, List.dropWhile_cons_of_neg (by simp)]
  have ht : (s ++ c :: rest).takeWhile (· ≠ c) = s := by
    rw [List.takeWhile_append_of_pos hs, List.takeWhile_cons_of_neg (by simp), List.append_nil]
  rw [breakOn, hd, ht]

theorem eq_of_breakOn {c : UInt8} {s a b : Bytes} (h : breakOn c s = some (a, b)) :
    s = a ++ c :: b ∧ c ∉ a := by
  unfold breakOn at h
  split at h
  case h_1 => cases h
  case h_2 d rest hd =>
    cases h
    have hdc : d = c := by
      have hne : s.dropWhile (fun b => decide (b ≠ c)) ≠ [] := by
        rw [hd]
        exact List.cons_ne_nil _ _
      have := List.head_dropWhile_not (fun b => decide (b ≠ c)) hne
      simp only [hd, List.head_cons] at this
      simpa using this
    refine ⟨?_, fun hc => by simpa using List.mem_takeWhile_imp hc⟩
    subst hdc
    rw [← hd]
    exact List.takeWhile_append_dropWhile.symm

/-! ### Reading lines -/

/-- `fgets`: at most `n` bytes, up to and with the first newline; the line and the rest. -/
def fgets : ℕ → Bytes → Bytes × Bytes
  | 0, s => ([], s)
  | _ + 1, [] => ([], [])
  | n + 1, c :: s => if c = 10 then ([c], s) else (c :: (fgets n s).1, (fgets n s).2)

/-- The lines that `fgets` reads until it returns `NULL`; no line is empty, so there are at most as
many as the `fuel`, the length of the file. -/
def readLinesAux (n : ℕ) : ℕ → Bytes → List Bytes
  | 0, _ => []
  | _ + 1, [] => []
  | fuel + 1, c :: s => (fgets n (c :: s)).1 :: readLinesAux n fuel (fgets n (c :: s)).2

/-- The lines of a file, read into a buffer of `n + 1` bytes. -/
def readLines (n : ℕ) (s : Bytes) : List Bytes := readLinesAux n s.length s

theorem fgets_length (n : ℕ) (c : UInt8) (s : Bytes) :
    (fgets (n + 1) (c :: s)).2.length ≤ s.length := by
  induction n generalizing c s with
  | zero =>
    unfold fgets
    split_ifs <;> simp [fgets]
  | succ n ih =>
    rw [fgets]
    split_ifs
    · exact le_rfl
    · cases s with
      | nil => simp [fgets]
      | cons d s => exact (ih d s).trans (Nat.le_succ _)

theorem readLinesAux_eq (n fuel : ℕ) (s : Bytes) (h : s.length ≤ fuel) :
    readLinesAux (n + 1) fuel s = readLines (n + 1) s := by
  induction fuel using Nat.strong_induction_on generalizing s with
  | _ fuel ih =>
    cases s with
    | nil => cases fuel <;> rfl
    | cons c s =>
      obtain ⟨fuel, rfl⟩ : ∃ k, fuel = k + 1 := ⟨fuel - 1, by simp at h; omega⟩
      have hlen := fgets_length n c s
      simp only [List.length_cons] at h
      rw [readLines, List.length_cons, readLinesAux, readLinesAux,
        ih fuel (Nat.lt_succ_self _) _ (by omega)]
      rcases Nat.lt_or_ge s.length (fuel + 1) with hs | hs
      · rw [ih s.length (by omega) _ hlen]
      · omega

/-- **The loop around `fgets`.** -/
theorem readLines_cons (n : ℕ) (c : UInt8) (s : Bytes) :
    readLines (n + 1) (c :: s) =
      (fgets (n + 1) (c :: s)).1 :: readLines (n + 1) (fgets (n + 1) (c :: s)).2 := by
  rw [readLines, List.length_cons, readLinesAux, readLinesAux_eq n _ _ (fgets_length n c s)]

theorem fgets_line {n : ℕ} {s rest : Bytes} (h : 10 ∉ s) (hn : s.length < n) :
    fgets n (s ++ 10 :: rest) = (s ++ [10], rest) := by
  induction s generalizing n with
  | nil =>
    obtain ⟨n, rfl⟩ : ∃ k, n = k + 1 := ⟨n - 1, by simp at hn; omega⟩
    simp [fgets]
  | cons c s ih =>
    obtain ⟨n, rfl⟩ : ∃ k, n = k + 1 := ⟨n - 1, by simp at hn; omega⟩
    obtain ⟨hc, hs⟩ := not_or.1 (mt List.mem_cons.2 h)
    rw [List.cons_append, fgets, if_neg fun he => hc he.symm, ih hs (by simpa using hn)]
    rfl

theorem fgets_full {n : ℕ} {s rest : Bytes} (h : 10 ∉ s) (hn : s.length = n) :
    fgets n (s ++ rest) = (s, rest) := by
  induction s generalizing n with
  | nil =>
    subst hn
    rfl
  | cons c s ih =>
    subst hn
    obtain ⟨hc, hs⟩ := not_or.1 (mt List.mem_cons.2 h)
    rw [List.length_cons, List.cons_append, fgets, if_neg fun he => hc he.symm, ih hs rfl]

/-- **A line that fits the buffer is read in one piece**, and its newline with it or alone. -/
theorem readLines_line {n : ℕ} {s rest : Bytes} (h : 10 ∉ s) (hn : s.length ≤ n + 1) :
    readLines (n + 1) (s ++ 10 :: rest) = (s ++ [10]) :: readLines (n + 1) rest ∨
      readLines (n + 1) (s ++ 10 :: rest) = s :: [10] :: readLines (n + 1) rest := by
  have hcons : ∀ s : Bytes, ∀ rest, ∃ c t, s ++ 10 :: rest = c :: t := by
    rintro (_ | ⟨c, s⟩) rest
    · exact ⟨10, rest, rfl⟩
    · exact ⟨c, s ++ 10 :: rest, rfl⟩
  obtain ⟨c, t, ht⟩ := hcons s rest
  rcases Nat.lt_or_ge s.length (n + 1) with hlt | hge
  · left
    rw [ht, readLines_cons, ← ht, fgets_line h hlt]
  · right
    rw [ht, readLines_cons, ← ht, fgets_full h (by omega), readLines_cons]
    simp [fgets]

theorem newline_notMem_fgets (n : ℕ) (s : Bytes) : 10 ∉ (fgets n s).1.dropLast := by
  induction n generalizing s with
  | zero => simp [fgets]
  | succ n ih =>
    cases s with
    | nil => simp [fgets]
    | cons c s =>
      rw [fgets]
      split_ifs with hc
      · simp
      · intro h
        rcases List.eq_nil_or_concat (fgets n s).1 with hnil | ⟨l, d, hl⟩
        · simp [hnil] at h
        · have := ih s
          simp only [hl, List.concat_eq_append, List.dropLast_concat] at this
          simp only [hl, List.concat_eq_append, ← List.cons_append, List.dropLast_concat,
            List.mem_cons] at h
          exact h.elim (fun h => hc h.symm) this

theorem newline_notMem_readLines {n : ℕ} {s line : Bytes} (h : line ∈ readLines n s) :
    10 ∉ line.dropLast := by
  have : ∀ fuel s, line ∈ readLinesAux n fuel s → 10 ∉ line.dropLast := by
    intro fuel
    induction fuel with
    | zero => intro s hs; cases hs
    | succ fuel ih =>
      intro s hs
      cases s with
      | nil => cases hs
      | cons c s =>
        rcases List.mem_cons.1 hs with rfl | hs
        · exact newline_notMem_fgets n (c :: s)
        · exact ih _ hs
  exact this _ s h

/-! ### Reading numbers -/

/-- The value of a digit, in bases up to 36. -/
def digitValue (c : UInt8) : Option ℕ :=
  if 48 ≤ c ∧ c ≤ 57 then some (c.toNat - 48)
  else if 97 ≤ c ∧ c ≤ 122 then some (c.toNat - 87)
  else if 65 ≤ c ∧ c ≤ 90 then some (c.toNat - 55)
  else none

/-- Is `c` a digit in this base? -/
def isDigit (base : ℕ) (c : UInt8) : Bool := (digitValue c).any (· < base)

/-- `isspace` -/
def isSpace (c : UInt8) : Bool := c = 32 ∨ 9 ≤ c ∧ c ≤ 13

/-- The number written with these digits. -/
def ofDigits (base : ℕ) (ds : Bytes) : ℕ :=
  ds.foldl (fun n c => n * base + (digitValue c).getD 0) 0

/-- A sign, and what follows it. -/
def takeSign : Bytes → Bool × Bytes
  | 45 :: s => (true, s)
  | 43 :: s => (false, s)
  | s => (false, s)

/-- `0x` is skipped in base 16, if a digit follows. -/
def skipHexPrefix (base : ℕ) : Bytes → Bytes
  | 48 :: x :: c :: s =>
    if base = 16 ∧ (x = 120 ∨ x = 88) ∧ isDigit 16 c = true then c :: s else 48 :: x :: c :: s
  | s => s

/-- `strtoul`: the number and the end of its text; `none` if there is no number, when it returns
`0` and does not move. -/
def strtoul (base : ℕ) (s : Bytes) : Option (ℕ × Bytes) :=
  let (negative, s) := takeSign (s.dropWhile isSpace)
  let s := skipHexPrefix base s
  let ds := s.takeWhile (isDigit base)
  let n := ofDigits base ds
  if ds = [] then none
  else some (if 2 ^ 64 ≤ n then 2 ^ 64 - 1 else if negative then (2 ^ 64 - n) % 2 ^ 64 else n,
    s.dropWhile (isDigit base))

theorem le_of_isDigit {base : ℕ} {c : UInt8} (h : isDigit base c = true) : 48 ≤ c := by
  unfold isDigit digitValue at h
  split_ifs at h with h₁ h₂ h₃
  · exact h₁.1
  · exact le_trans (by decide) h₂.1
  · exact le_trans (by decide) h₃.1
  · cases h

theorem not_isSpace_of_isDigit {base : ℕ} {c : UInt8} (h : isDigit base c = true) :
    isSpace c = false := by
  have hc := le_of_isDigit h
  simp only [isSpace, decide_eq_false_iff_not]
  rintro (rfl | ⟨-, hc'⟩)
  · exact absurd hc (by decide)
  · exact absurd (le_trans hc hc') (by decide)

theorem takeSign_of_isDigit {base : ℕ} {c : UInt8} {s : Bytes} (h : isDigit base c = true) :
    takeSign (c :: s) = (false, c :: s) := by
  have hc := le_of_isDigit h
  have h45 : c ≠ 45 := by
    rintro rfl
    exact absurd hc (by decide)
  have h43 : c ≠ 43 := by
    rintro rfl
    exact absurd hc (by decide)
  simp [takeSign, h45, h43]

theorem skipHexPrefix_append {base : ℕ} {ds rest : Bytes}
    (hds : ∀ c ∈ ds, isDigit base c = true) (hx : base = 16 → 2 ≤ ds.length) :
    skipHexPrefix base (ds ++ rest) = ds ++ rest := by
  unfold skipHexPrefix
  split
  case h_2 => rfl
  case h_1 x c s hs =>
    have hc : ¬ (base = 16 ∧ (x = 120 ∨ x = 88) ∧ isDigit 16 c = true) := by
      rintro ⟨rfl, hx', -⟩
      obtain ⟨a, b, l, rfl⟩ : ∃ a b l, ds = a :: b :: l := by
        match ds, hx rfl with
        | a :: b :: l, _ => exact ⟨a, b, l, rfl⟩
      have hb := hds b (by simp)
      obtain rfl : b = x := by simpa using (List.cons.inj (List.cons.inj hs).2).1
      rcases hx' with rfl | rfl <;> simp [isDigit, digitValue] at hb
    rw [if_neg hc, hs]

/-- **`strtoul` reads the digits in front of a byte that is none.** -/
theorem strtoul_append {base : ℕ} {ds rest : Bytes} (hne : ds ≠ [])
    (hds : ∀ c ∈ ds, isDigit base c = true)
    (hrest : ∀ c, rest.head? = some c → isDigit base c = false)
    (hx : base = 16 → 2 ≤ ds.length) (hn : ofDigits base ds < 2 ^ 64) :
    strtoul base (ds ++ rest) = some (ofDigits base ds, rest) := by
  have htake : (ds ++ rest).takeWhile (isDigit base) = ds := by
    rw [List.takeWhile_append_of_pos hds]
    cases rest with
    | nil => simp
    | cons c rest => rw [List.takeWhile_cons_of_neg (by simp [hrest c rfl]), List.append_nil]
  have hdrop : (ds ++ rest).dropWhile (isDigit base) = rest := by
    rw [List.dropWhile_append_of_pos hds]
    cases rest with
    | nil => rfl
    | cons c rest => rw [List.dropWhile_cons_of_neg (by simp [hrest c rfl])]
  have hsign : takeSign ((ds ++ rest).dropWhile isSpace) = (false, ds ++ rest) := by
    cases ds with
    | nil => exact absurd rfl hne
    | cons d ds =>
      have hd := hds d List.mem_cons_self
      rw [List.cons_append, List.dropWhile_cons_of_neg (by simp [not_isSpace_of_isDigit hd]),
        takeSign_of_isDigit hd]
  simp only [strtoul, hsign, skipHexPrefix_append hds hx, htake, hdrop, if_neg hne,
    if_neg (not_le.2 hn), Bool.false_eq_true, if_false]

theorem strtoul_length {base : ℕ} {s rest : Bytes} {v : ℕ}
    (h : strtoul base s = some (v, rest)) : rest.length < s.length := by
  have hsign : ∀ s : Bytes, (takeSign s).2.length ≤ s.length := by
    intro s
    unfold takeSign
    split <;> simp
  have hskip : ∀ s : Bytes, (skipHexPrefix base s).length ≤ s.length := by
    intro s
    unfold skipHexPrefix
    split
    · split_ifs
      · simp only [List.length_cons]
        omega
      · exact le_rfl
    · exact le_rfl
  have hdigits : ∀ s : Bytes, s.takeWhile (isDigit base) ≠ [] →
      (s.dropWhile (isDigit base)).length < s.length := by
    intro s hs
    have hsplit :=
      congrArg List.length (List.takeWhile_append_dropWhile (p := isDigit base) (l := s))
    have hpos := List.length_pos_of_ne_nil hs
    rw [List.length_append] at hsplit
    omega
  simp only [strtoul] at h
  split_ifs at h with hnil
  all_goals
    cases h
    exact (hdigits _ hnil).trans_le ((hskip _).trans
      ((hsign _).trans (List.length_dropWhile_le _ _)))

/-! ### Writing numbers -/

/-- The digit of a value below 16. -/
def toDigit (d : ℕ) : UInt8 := if d < 10 then (48 + d).toUInt8 else (87 + d).toUInt8

/-- `snprintf` of `%0wx`, for a number below `16 ^ w`. -/
def formatHex : ℕ → ℕ → Bytes
  | 0, _ => []
  | w + 1, n => formatHex w (n / 16) ++ [toDigit (n % 16)]

/-- `snprintf` of `%u`, for a number of at most `k + 1` digits. -/
def formatDec : ℕ → ℕ → Bytes
  | 0, n => [toDigit (n % 10)]
  | k + 1, n => if n < 10 then [toDigit n] else formatDec k (n / 10) ++ [toDigit (n % 10)]

theorem digitValue_toDigit {d : ℕ} (h : d < 16) : digitValue (toDigit d) = some d := by
  revert d
  decide

theorem isDigit_toDigit {base d : ℕ} (h : d < 16) (hd : d < base) :
    isDigit base (toDigit d) = true := by
  simp [isDigit, digitValue_toDigit h, hd]

theorem ofDigits_append (base : ℕ) (ds : Bytes) (c : UInt8) :
    ofDigits base (ds ++ [c]) = ofDigits base ds * base + (digitValue c).getD 0 := by
  simp [ofDigits]

@[simp] theorem length_formatHex (w n : ℕ) : (formatHex w n).length = w := by
  induction w generalizing n with
  | zero => rfl
  | succ w ih => simp [formatHex, ih]

theorem isDigit_formatHex {w n : ℕ} : ∀ c ∈ formatHex w n, isDigit 16 c = true := by
  induction w generalizing n with
  | zero => intro c hc; cases hc
  | succ w ih =>
    intro c hc
    rcases List.mem_append.1 hc with hc | hc
    · exact ih c hc
    · have hlt : n % 16 < 16 := Nat.mod_lt _ (by decide)
      rw [List.mem_singleton.1 hc]
      exact isDigit_toDigit hlt hlt

theorem ofDigits_formatHex {w n : ℕ} (h : n < 16 ^ w) : ofDigits 16 (formatHex w n) = n := by
  induction w generalizing n with
  | zero =>
    obtain rfl : n = 0 := by simpa using h
    rfl
  | succ w ih =>
    have hdiv : n / 16 < 16 ^ w := Nat.div_lt_of_lt_mul (by rwa [← Nat.pow_succ'])
    rw [formatHex, ofDigits_append, ih hdiv, digitValue_toDigit (Nat.mod_lt _ (by decide))]
    exact Nat.div_add_mod' n 16

theorem formatDec_ne_nil (k n : ℕ) : formatDec k n ≠ [] := by
  cases k with
  | zero => simp [formatDec]
  | succ k =>
    rw [formatDec]
    split_ifs <;> simp

theorem isDigit_formatDec {k n : ℕ} : ∀ c ∈ formatDec k n, isDigit 10 c = true := by
  have hmod : ∀ n : ℕ, isDigit 10 (toDigit (n % 10)) = true := fun n =>
    have hlt : n % 10 < 10 := Nat.mod_lt _ (by decide)
    isDigit_toDigit (by omega) hlt
  induction k generalizing n with
  | zero =>
    intro c hc
    rw [List.mem_singleton.1 hc]
    exact hmod n
  | succ k ih =>
    intro c hc
    rw [formatDec] at hc
    split_ifs at hc with hn
    · rw [List.mem_singleton.1 hc]
      exact isDigit_toDigit (by omega) hn
    · rcases List.mem_append.1 hc with hc | hc
      · exact ih c hc
      · rw [List.mem_singleton.1 hc]
        exact hmod n

theorem ofDigits_formatDec {k n : ℕ} (h : n < 10 ^ (k + 1)) : ofDigits 10 (formatDec k n) = n := by
  induction k generalizing n with
  | zero =>
    have hn : n % 10 = n := Nat.mod_eq_of_lt (by simpa using h)
    rw [formatDec, hn]
    simp [ofDigits, digitValue_toDigit (show n < 16 by simp at h; omega)]
  | succ k ih =>
    rw [formatDec]
    split_ifs with hn
    · simp [ofDigits, digitValue_toDigit (show n < 16 by omega)]
    · have hdiv : n / 10 < 10 ^ (k + 1) := Nat.div_lt_of_lt_mul (by rwa [← Nat.pow_succ'])
      have hlt : n % 10 < 10 := Nat.mod_lt _ (by decide)
      rw [ofDigits_append, ih hdiv, digitValue_toDigit (by omega)]
      exact Nat.div_add_mod' n 10

end Swinx
