import Mathlib.Data.List.Basic
import Mathlib.Tactic.SplitIfs
import Swinx.Data.CString

/-!
# The keyboard configuration property

`readXKBConfig` takes the five names of the keyboard configuration from a property of the root
window, in which strings with their `NUL`s stand one after the other.  A run ends at the first byte
behind the property that it would read, and at the sixth name that it would store.

* `readNames_iff` — when the loop and the copies of the names succeed, and what they give.
* `parsed_iff` — the names are right for the properties of five strings with their `NUL`s.
-/

namespace Swinx

namespace RulesNames

/-- An access that is not allowed. -/
inductive Fault
  | readsBehind
  | sixthName
  deriving DecidableEq, Repr

/-- How many bytes `strnlen` passes over, of those from its place on. -/
def strnlenFrom : List UInt8 → ℕ → Except Fault ℕ
  | _, 0 => .ok 0
  | [], _ + 1 => .error .readsBehind
  | b :: rest, maxlen + 1 => if b = 0 then .ok 0 else (strnlenFrom rest maxlen).map (· + 1)

/-- An `int` as a `size_t`. -/
def toSize (length : ℤ) : ℕ :=
  if 0 ≤ length then length.toNat else (18446744073709551616 + length).toNat

def strnlen (property : List UInt8) (p : ℕ) (length : ℤ) : Except Fault ℕ :=
  strnlenFrom (property.drop p) (toSize length)

/-- The loop with so many of the five places of `names` free, from `p` on: what it stores. -/
def readNames (property : List UInt8) : ℕ → ℕ → ℤ → Except Fault (List ℕ)
  | 0, p, length => (strnlen property p length).bind fun _ => .error .sixthName
  | free + 1, p, length =>
    (strnlen property p length).bind fun len =>
      if p + len + 1 < property.length ∨ 0 < free then
        (readNames property free (p + len + 1) (length - (len + 1))).map (p :: ·)
      else .ok [p]

/-- The string that `strdup` copies, of the bytes from its place on. -/
def strdupFrom : List UInt8 → Except Fault (List UInt8)
  | [] => .error .readsBehind
  | b :: rest => if b = 0 then .ok [] else (strdupFrom rest).map (b :: ·)

def strdup (property : List UInt8) (p : ℕ) : Except Fault (List UInt8) :=
  strdupFrom (property.drop p)

/-- The names, each a null pointer or a string. -/
structure XkbNames where
  rules : Option (List UInt8)
  model : Option (List UInt8)
  layout : Option (List UInt8)
  variant : Option (List UInt8)
  options : Option (List UInt8)
  deriving DecidableEq, Repr

/-- `clearXKBConfig` -/
def XkbNames.clear : XkbNames := ⟨none, none, none, none, none⟩

/-- The copies of the names. -/
def strdupAll (property : List UInt8) : List ℕ → Except Fault (List (List UInt8))
  | [] => .ok []
  | p :: names => (strdup property p).bind fun s => (strdupAll property names).map (s :: ·)

def XkbNames.ofList (copies : List (List UInt8)) : XkbNames :=
  ⟨copies[0]?, copies[1]?, copies[2]?, copies[3]?, copies[4]?⟩

/-- `readXKBConfig`; without a screen, a reply or a value there is no property. -/
def readXKBConfig (property : Option (List UInt8)) : Except Fault XkbNames :=
  match property with
  | none => .ok .clear
  | some property =>
    if property.length = 0 then .ok .clear
    else
      (readNames property 5 0 property.length).bind fun names =>
        (strdupAll property names).map XkbNames.ofList

/-! ### The strings of a property -/

/-- **The strings**; the last one may have no `NUL`. -/
def strings : List UInt8 → List (List UInt8)
  | [] => []
  | b :: rest =>
    if b = 0 then [] :: strings rest
    else
      match strings rest with
      | [] => [[b]]
      | s :: later => (b :: s) :: later

/-- A name is its string; a name without a string is empty or null. -/
def IsName (name expected : Option (List UInt8)) : Prop :=
  match expected with
  | some s => name = some s
  | none => name = none ∨ name = some []

/-- **The names are the first five strings**, and getting them is allowed. -/
def Parsed (property : Option (List UInt8)) : Prop :=
  ∃ names, readXKBConfig property = .ok names ∧
    IsName names.rules (strings (property.getD []))[0]? ∧
    IsName names.model (strings (property.getD []))[1]? ∧
    IsName names.layout (strings (property.getD []))[2]? ∧
    IsName names.variant (strings (property.getD []))[3]? ∧
    IsName names.options (strings (property.getD []))[4]?

/-- So many strings, each with its `NUL`. -/
def Ended (count : ℕ) (property : List UInt8) : Prop :=
  property.count 0 = count ∧ property.getLast? = some 0

/-- There is nothing, or five strings with their `NUL`s. -/
def Five (property : Option (List UInt8)) : Prop :=
  property.getD [] = [] ∨ Ended 5 (property.getD [])

/-! ### One string -/

section

variable {t rest : List UInt8}

theorem strings_append (h : (0 : UInt8) ∉ t) : strings (t ++ 0 :: rest) = t :: strings rest := by
  induction t with
  | nil => simp [strings]
  | cons b t ih =>
    obtain ⟨hb, ht⟩ := not_or.1 (mt List.mem_cons.2 h)
    rw [List.cons_append, strings, if_neg (Ne.symm hb), ih ht]

theorem strnlenFrom_append (h : (0 : UInt8) ∉ t) {maxlen : ℕ} (hlen : t.length < maxlen) :
    strnlenFrom (t ++ 0 :: rest) maxlen = .ok t.length := by
  induction t generalizing maxlen with
  | nil =>
    obtain ⟨m, rfl⟩ := Nat.exists_eq_succ_of_ne_zero (Nat.ne_zero_of_lt hlen)
    simp [strnlenFrom]
  | cons b t ih =>
    obtain ⟨hb, ht⟩ := not_or.1 (mt List.mem_cons.2 h)
    obtain ⟨m, rfl⟩ := Nat.exists_eq_succ_of_ne_zero (Nat.ne_zero_of_lt hlen)
    rw [List.cons_append, strnlenFrom, if_neg (Ne.symm hb), ih ht (Nat.lt_of_succ_lt_succ hlen)]
    rfl

theorem strdupFrom_append (h : (0 : UInt8) ∉ t) : strdupFrom (t ++ 0 :: rest) = .ok t := by
  induction t with
  | nil => simp [strdupFrom]
  | cons b t ih =>
    obtain ⟨hb, ht⟩ := not_or.1 (mt List.mem_cons.2 h)
    rw [List.cons_append, strdupFrom, if_neg (Ne.symm hb), ih ht]
    rfl

/-- Without a `NUL` the length is bounded by the argument only. -/
theorem strnlenFrom_unended (h : (0 : UInt8) ∉ t) : strnlenFrom t t.length = .ok t.length := by
  induction t with
  | nil => rfl
  | cons b t ih =>
    obtain ⟨hb, ht⟩ := not_or.1 (mt List.mem_cons.2 h)
    rw [List.length_cons, strnlenFrom, if_neg (Ne.symm hb), ih ht]
    rfl

theorem strdupFrom_unended (h : (0 : UInt8) ∉ t) : strdupFrom t = .error .readsBehind := by
  induction t with
  | nil => rfl
  | cons b t ih =>
    obtain ⟨hb, ht⟩ := not_or.1 (mt List.mem_cons.2 h)
    rw [strdupFrom, if_neg (Ne.symm hb), ih ht]
    rfl

end

/-- Bytes are a string with its `NUL` and others behind it, or have no `NUL`. -/
theorem exists_split (s : List UInt8) :
    (∃ t rest, (0 : UInt8) ∉ t ∧ s = t ++ 0 :: rest) ∨ (0 : UInt8) ∉ s := by
  by_cases h : (0 : UInt8) ∈ s
  · left
    obtain ⟨t, rest, hs, ht⟩ := List.eq_append_cons_of_mem h
    exact ⟨t, rest, ht, hs⟩
  · exact .inr h

theorem Except.bind_eq_ok {ε α β : Type} {x : Except ε α} {f : α → Except ε β} {b : β} :
    x.bind f = .ok b ↔ ∃ a, x = .ok a ∧ f a = .ok b := by
  cases x with
  | error e => simp [Except.bind]
  | ok a => simp [Except.bind]

theorem Except.map_eq_ok {ε α β : Type} {x : Except ε α} {f : α → β} {b : β} :
    x.map f = .ok b ↔ ∃ a, x = .ok a ∧ f a = b := by
  cases x with
  | error e => simp [Except.map]
  | ok a => simp [Except.map]

theorem readNames_zero (property : List UInt8) (p : ℕ) (length : ℤ) (names : List ℕ) :
    readNames property 0 p length ≠ .ok names := by
  intro h
  obtain ⟨len, -, h⟩ := Except.bind_eq_ok.1 h
  cases h

theorem readNames_behind {property : List UInt8} {p : ℕ} (hp : property.length < p) (free : ℕ)
    {length : ℤ} (hlength : length = -1) (names : List ℕ) :
    readNames property free p length ≠ .ok names := by
  have hlen : strnlen property p length = .error .readsBehind := by
    rw [strnlen, List.drop_eq_nil_of_le hp.le, hlength]
    rfl
  intro h
  cases free with
  | zero => exact readNames_zero property p length names h
  | succ free =>
    rw [readNames, hlen] at h
    cases h

theorem strdupAll_cons {property : List UInt8} {p : ℕ} {names : List ℕ}
    {copies : List (List UInt8)} :
    strdupAll property (p :: names) = .ok copies ↔
      ∃ s later, strdup property p = .ok s ∧ strdupAll property names = .ok later ∧
        copies = s :: later := by
  rw [strdupAll, Except.bind_eq_ok]
  constructor
  · rintro ⟨s, hs, h⟩
    obtain ⟨later, hlater, rfl⟩ := Except.map_eq_ok.1 h
    exact ⟨s, later, hs, hlater, rfl⟩
  · rintro ⟨s, later, hs, hlater, rfl⟩
    exact ⟨s, hs, Except.map_eq_ok.2 ⟨later, hlater, rfl⟩⟩

theorem ended_append {t rest : List UInt8} (ht : (0 : UInt8) ∉ t) (k : ℕ) :
    Ended (k + 1) (t ++ 0 :: rest) ↔ Ended k rest ∨ rest = [] ∧ k = 0 := by
  have hcount : (t ++ 0 :: rest).count 0 = rest.count 0 + 1 := by
    rw [List.count_append, List.count_eq_zero_of_not_mem ht, List.count_cons_self, Nat.zero_add]
  unfold Ended
  rw [hcount]
  cases rest with
  | nil => simp [eq_comm]
  | cons b rest => simp [List.getLast?_append, List.getLast?_cons]

theorem readNames_string {property : List UInt8} {p : ℕ} {t rest : List UInt8}
    (ht : (0 : UInt8) ∉ t) (hs : property.drop p = t ++ 0 :: rest) (free : ℕ) :
    readNames property (free + 1) p (property.drop p).length =
      if p + t.length + 1 < property.length ∨ 0 < free then
        (readNames property free (p + t.length + 1) rest.length).map (p :: ·)
      else .ok [p] := by
  have hlen : strnlen property p (property.drop p).length = .ok t.length := by
    rw [strnlen, toSize, if_pos (Int.natCast_nonneg _), Int.toNat_natCast, hs]
    refine strnlenFrom_append ht ?_
    rw [List.length_append, List.length_cons]
    omega
  have hrest : ((property.drop p).length : ℤ) - ((t.length : ℕ) + 1) = rest.length := by
    rw [hs, List.length_append, List.length_cons]
    push_cast
    omega
  rw [readNames, hlen, ← hrest]
  rfl

/-- **Bytes without a `NUL`** are no name: what is behind them is read by the next round, or by the
copy. -/
theorem readNames_unended {property : List UInt8} {p : ℕ} (hp : p ≤ property.length)
    (hno : (0 : UInt8) ∉ property.drop p) {free : ℕ} {names : List ℕ}
    {copies : List (List UInt8)}
    (hnames : readNames property (free + 1) p (property.drop p).length = .ok names) :
    strdupAll property names ≠ .ok copies := by
  have hlen : strnlen property p (property.drop p).length = .ok (property.drop p).length := by
    rw [strnlen, toSize, if_pos (Int.natCast_nonneg _), Int.toNat_natCast]
    exact strnlenFrom_unended hno
  have hend : p + (property.drop p).length + 1 = property.length + 1 := by
    rw [List.length_drop]
    omega
  rw [readNames, hlen] at hnames
  simp only [Except.bind, hend] at hnames
  split_ifs at hnames with hmore
  · obtain ⟨later, hlater, -⟩ := Except.map_eq_ok.1 hnames
    exact absurd hlater (readNames_behind (Nat.lt_succ_self _) free (by omega) later)
  · cases hnames
    intro h
    obtain ⟨copy, -, hcopy, -⟩ := strdupAll_cons.1 h
    rw [strdup, strdupFrom_unended hno] at hcopy
    cases hcopy

/-- **The loop and the copies succeed** for so many strings with their `NUL`s, and give them. -/
theorem readNames_iff {property : List UInt8} (free : ℕ) {p : ℕ} (hp : p ≤ property.length)
    (copies : List (List UInt8)) :
    (∃ names, readNames property (free + 1) p (property.drop p).length = .ok names ∧
        strdupAll property names = .ok copies) ↔
      Ended (free + 1) (property.drop p) ∧ copies = strings (property.drop p) := by
  induction free generalizing p copies with
  | zero =>
    rcases exists_split (property.drop p) with ⟨t, rest, ht, hs⟩ | hno
    · have hlength : property.length = p + t.length + 1 + rest.length := by
        have := congrArg List.length hs
        rw [List.length_drop, List.length_append, List.length_cons] at this
        omega
      have hcopy : strdup property p = .ok t := by rw [strdup, hs, strdupFrom_append ht]
      rw [readNames_string ht hs, hs, ended_append ht, strings_append ht]
      cases rest with
      | nil =>
        rw [if_neg (by rw [hlength]; simp)]
        constructor
        · rintro ⟨names, hnames, hcopies⟩
          cases hnames
          obtain ⟨s, later, hs, hlater, rfl⟩ := strdupAll_cons.1 hcopies
          rw [hcopy] at hs
          cases hs
          cases hlater
          exact ⟨.inr ⟨rfl, rfl⟩, rfl⟩
        · rintro ⟨-, rfl⟩
          exact ⟨[p], rfl, strdupAll_cons.2 ⟨t, [], hcopy, rfl, rfl⟩⟩
      | cons b rest =>
        rw [if_pos (.inl (by rw [hlength, List.length_cons]; omega))]
        constructor
        · rintro ⟨names, hnames, -⟩
          obtain ⟨later, hlater, -⟩ := Except.map_eq_ok.1 hnames
          exact absurd hlater (readNames_zero property _ _ later)
        · rintro ⟨⟨hcount, hlast⟩ | ⟨hnil, -⟩, -⟩
          · have hmem := List.mem_of_getLast? hlast
            exact absurd hmem (List.count_eq_zero.1 hcount)
          · cases hnil
    · constructor
      · rintro ⟨names, hnames, hcopies⟩
        exact absurd hcopies (readNames_unended hp hno hnames)
      · rintro ⟨⟨-, hlast⟩, -⟩
        exact absurd (List.mem_of_getLast? hlast) hno
  | succ free ih =>
    rcases exists_split (property.drop p) with ⟨t, rest, ht, hs⟩ | hno
    · have hdrop : property.drop (p + t.length + 1) = rest := by
        rw [Nat.add_assoc, ← List.drop_drop, hs, ← List.singleton_append, ← List.append_assoc]
        exact List.drop_left' (by simp)
      have hlength : property.length = p + t.length + 1 + rest.length := by
        have := congrArg List.length hs
        rw [List.length_drop, List.length_append, List.length_cons] at this
        omega
      have hcopy : strdup property p = .ok t := by rw [strdup, hs, strdupFrom_append ht]
      have hnext := ih (p := p + t.length + 1) (by omega)
      rw [hdrop] at hnext
      rw [readNames_string ht hs, hs, if_pos (.inr (Nat.succ_pos free)), ended_append ht,
        strings_append ht, or_iff_left (by simp)]
      constructor
      · rintro ⟨names, hnames, hcopies⟩
        obtain ⟨later, hlater, rfl⟩ := Except.map_eq_ok.1 hnames
        obtain ⟨s, copies', hs', hcopies', rfl⟩ := strdupAll_cons.1 hcopies
        rw [hcopy] at hs'
        cases hs'
        obtain ⟨hended, rfl⟩ := (hnext copies').1 ⟨later, hlater, hcopies'⟩
        exact ⟨hended, rfl⟩
      · rintro ⟨hended, rfl⟩
        obtain ⟨later, hlater, hcopies⟩ := (hnext _).2 ⟨hended, rfl⟩
        exact ⟨p :: later, Except.map_eq_ok.2 ⟨later, hlater, rfl⟩,
          strdupAll_cons.2 ⟨t, _, hcopy, hcopies, rfl⟩⟩
    · constructor
      · rintro ⟨names, hnames, hcopies⟩
        exact absurd hcopies (readNames_unended hp hno hnames)
      · rintro ⟨⟨-, hlast⟩, -⟩
        exact absurd (List.mem_of_getLast? hlast) hno

/-! ### The names -/

theorem length_strings {s : List UInt8} {k : ℕ} (h : Ended k s) : (strings s).length = k := by
  induction k generalizing s with
  | zero =>
    rcases exists_split s with ⟨t, rest, -, rfl⟩ | hno
    · have := h.1
      simp at this
    · exact absurd (List.mem_of_getLast? h.2) hno
  | succ k ih =>
    rcases exists_split s with ⟨t, rest, ht, rfl⟩ | hno
    · rw [strings_append ht, List.length_cons]
      rcases (ended_append ht k).1 h with h | ⟨rfl, rfl⟩
      · rw [ih h]
      · rfl
    · exact absurd (List.mem_of_getLast? h.2) hno

/-- **The names are right** if and only if there is nothing, or there are five strings with their
`NUL`s. -/
theorem parsed_iff (property : Option (List UInt8)) : Parsed property ↔ Five property := by
  have hclear : ∀ p : Option (List UInt8), p.getD [] = [] → readXKBConfig p = .ok .clear := by
    intro p hp
    cases p with
    | none => rfl
    | some bytes => exact if_pos (by rw [Option.getD_some] at hp; rw [hp]; rfl)
  by_cases hnil : property.getD [] = []
  · refine iff_of_true ⟨.clear, hclear property hnil, ?_⟩ (.inl hnil)
    rw [hnil]
    exact ⟨.inl rfl, .inl rfl, .inl rfl, .inl rfl, .inl rfl⟩
  obtain ⟨bytes, rfl⟩ : ∃ bytes, property = some bytes := by
    cases property with
    | none => exact absurd rfl hnil
    | some bytes => exact ⟨bytes, rfl⟩
  rw [Option.getD_some] at hnil
  have hloop := readNames_iff 4 (Nat.zero_le bytes.length)
  rw [List.drop_zero] at hloop
  have hrun : readXKBConfig (some bytes) =
      (readNames bytes 5 0 bytes.length).bind fun names =>
        (strdupAll bytes names).map XkbNames.ofList :=
    if_neg fun h => hnil (List.length_eq_zero_iff.1 h)
  have hfive : Five (some bytes) ↔ Ended 5 bytes := or_iff_right hnil
  rw [hfive, Parsed, hrun, Option.getD_some]
  constructor
  · rintro ⟨names, h, -⟩
    obtain ⟨ps, hps, h⟩ := Except.bind_eq_ok.1 h
    obtain ⟨copies, hcopies, -⟩ := Except.map_eq_ok.1 h
    exact ((hloop copies).1 ⟨ps, hps, hcopies⟩).1
  · intro h
    obtain ⟨ps, hps, hcopies⟩ := (hloop (strings bytes)).2 ⟨h, rfl⟩
    have hlen := length_strings h
    refine ⟨.ofList (strings bytes),
      Except.bind_eq_ok.2 ⟨ps, hps, Except.map_eq_ok.2 ⟨_, hcopies, rfl⟩⟩, ?_⟩
    have hname : ∀ k < 5, IsName (strings bytes)[k]? (strings bytes)[k]? := by
      intro k hk
      rw [List.getElem?_eq_getElem (by omega)]
      exact rfl
    exact ⟨hname 0 (by decide), hname 1 (by decide), hname 2 (by decide), hname 3 (by decide),
      hname 4 (by decide)⟩

/-- **Six strings** store a sixth name, and four are followed by a name that is read behind the
property. -/
theorem fault_six_strings :
    readXKBConfig (some [0, 0, 0, 0, 0, 0]) = .error .sixthName ∧
      readXKBConfig (some [0, 0, 0, 0]) = .error .readsBehind ∧
      ¬Parsed (some [0, 0, 0, 0, 0, 0]) := by
  have hrun : readXKBConfig (some [0, 0, 0, 0, 0, 0]) = .error .sixthName := by decide +kernel
  refine ⟨hrun, by decide +kernel, ?_⟩
  rintro ⟨names, h, -⟩
  rw [hrun] at h
  cases h

end RulesNames

end Swinx
