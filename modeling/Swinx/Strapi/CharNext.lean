import Mathlib.Logic.Function.Iterate
import Swinx.Data.UniconvCalls

/-!
# CharNext

A string stands in a memory that goes on behind its `NUL`.  `CharNextA` and `CharNextW` step from a
character to the next by what the first unit tells, and `_mbscvt` changes the case of the characters
that it steps over.

* `reachesEnd_iff` — steps by the length of a character lead to the `NUL` if the string lands.
* `converts_iff` — so does the conversion.
* `stepping_iff` — both forms together.
-/

namespace Swinx

namespace CharNext

open Uniconv

/-- **A string with its `NUL`** in a memory. -/
structure Terminated (α : Type) [Zero α] where
  mem : ℕ → α
  length : ℕ
  nul : mem length = 0
  ne_zero : ∀ i < length, mem i ≠ 0

/-- The units in front of the `NUL`. -/
def Terminated.text {α : Type} [Zero α] (s : Terminated α) : List α :=
  (List.range s.length).map s.mem

def mbsinc (src : ℕ → UInt8) (p : ℕ) : ℕ := p + UTF8CharLength (src p)

def charNextA (src : ℕ → UInt8) (p : ℕ) : ℕ := if src p = 0 then p else mbsinc src p

/-- How many units `CharNextW` steps over. -/
def wideLength (uch : ℕ) : ℕ := if 0xD800 ≤ uch ∧ uch ≤ 0xDBFF then 2 else 1

def charNextW (src : ℕ → ℕ) (p : ℕ) : ℕ := p + wideLength (src p)

def tolower (c : UInt8) : UInt8 := if 0x41 ≤ c.toNat ∧ c.toNat ≤ 0x5A then c + 0x20 else c

def toupper (c : UInt8) : UInt8 := if 0x61 ≤ c.toNat ∧ c.toNat ≤ 0x7A then c - 0x20 else c

def convertCase (bLower : Bool) (c : UInt8) : UInt8 := if bLower then tolower c else toupper c

/-- The memory after the character at `p`; a character of more bytes stays. -/
def convertAt (bLower : Bool) (src : ℕ → UInt8) (p : ℕ) : ℕ → UInt8 :=
  if mbsinc src p - p = 1 then Function.update src p (convertCase bLower (src p)) else src

/-- `_mbscvt` from the place `p` on, over at most so many characters: the memory behind it, and the
places that are read or written. -/
def mbscvt (bLower : Bool) : ℕ → (ℕ → UInt8) → ℕ → Option ((ℕ → UInt8) × List ℕ)
  | 0, _, _ => none
  | fuel + 1, src, p =>
    if src p = 0 then some (src, [p])
    else (mbscvt bLower fuel (convertAt bLower src p) (mbsinc src p)).map fun r => (r.1, p :: r.2)

/-! ### Steps that stay inside -/

/-- **The steps from the start** go on and on, and come to the place `n`. -/
def ReachesEnd (next : ℕ → ℕ) (n : ℕ) : Prop :=
  ∃ k, next^[k] 0 = n ∧ ∀ i < k, next^[i] 0 < next^[i + 1] 0

/-- An ASCII letter. -/
def IsLetter (c : UInt8) : Prop :=
  0x41 ≤ c.toNat ∧ c.toNat ≤ 0x5A ∨ 0x61 ≤ c.toNat ∧ c.toNat ≤ 0x7A

/-- **The conversion comes to an end**, uses no place behind the `NUL` and changes ASCII letters
only. -/
def Converts (s : Terminated UInt8) (bLower : Bool) : Prop :=
  ∃ fuel src places, mbscvt bLower fuel s.mem 0 = some (src, places) ∧
    (∀ p ∈ places, p ≤ s.length) ∧ ∀ i, src i ≠ s.mem i → i < s.length ∧ IsLetter (s.mem i)

/-- **Character stepping stays in the string**, in both forms. -/
structure Stays (a : Terminated UInt8) (w : Terminated ℕ) : Prop where
  reachesA : ReachesEnd (charNextA a.mem) a.length
  converts : ∀ bLower, Converts a bLower
  reachesW : ReachesEnd (charNextW w.mem) w.length

/-- **The last character ends where the string does**, by what the first units tell. -/
inductive Lands {α : Type} (len : α → ℕ) : List α → Prop
  | nil : Lands len []
  | cons (ch : α) (tail s : List α) :
    tail.length + 1 = len ch → Lands len s → Lands len (ch :: (tail ++ s))

/-! ### The walk over a string -/

section Walk

variable {α : Type} {len : α → ℕ} {mem : ℕ → α}

/-- The units from `p` to `n`. -/
def units (mem : ℕ → α) (p n : ℕ) : List α := (List.range' p (n - p)).map mem

theorem units_self (mem : ℕ → α) (n : ℕ) : units mem n n = [] := by
  simp [units]

theorem units_append {p q n : ℕ} (hpq : p ≤ q) (hqn : q ≤ n) :
    units mem p n = units mem p q ++ units mem q n := by
  unfold units
  rw [← List.map_append]
  congr 1
  have := List.range'_append_1 (s := p) (m := q - p) (n := n - q)
  rw [Nat.add_sub_cancel' hpq] at this
  rw [this, show q - p + (n - q) = n - p by omega]

theorem units_cons {p n : ℕ} (h : p < n) : units mem p n = mem p :: units mem (p + 1) n := by
  rw [units_append (Nat.le_succ p) h]
  simp [units]

theorem length_units (mem : ℕ → α) (p n : ℕ) : (units mem p n).length = n - p := by
  simp [units]

theorem lands_units_of_step {p n : ℕ} (hpos : 0 < len (mem p)) (hle : p + len (mem p) ≤ n)
    (h : Lands len (units mem (p + len (mem p)) n)) : Lands len (units mem p n) := by
  rw [units_cons (by omega), units_append (q := p + len (mem p)) (by omega) hle]
  refine .cons _ _ _ ?_ h
  rw [length_units]
  omega

theorem step_of_lands_units {p n : ℕ} (hlt : p < n) (h : Lands len (units mem p n)) :
    p + len (mem p) ≤ n ∧ 0 < len (mem p) ∧ Lands len (units mem (p + len (mem p)) n) := by
  generalize hl : units mem p n = l at h
  cases h with
  | nil =>
    have := length_units mem p n
    rw [hl, List.length_nil] at this
    omega
  | cons ch tail s hlen hs =>
    rw [units_cons hlt] at hl
    obtain ⟨rfl, hrest⟩ := List.cons.inj hl
    have hn := congrArg List.length hrest
    rw [length_units, List.length_append] at hn
    have hle : p + len (mem p) ≤ n := by omega
    refine ⟨hle, by omega, ?_⟩
    rw [units_append (q := p + len (mem p)) (by omega) hle] at hrest
    have := List.append_inj_right hrest (by rw [length_units]; omega)
    rwa [this]

/-- **Steps by the length of a character** come to the end of the string if it lands. -/
theorem reachesEnd_from_iff {next : ℕ → ℕ} {n : ℕ} (hpos : ∀ u, 0 < len u)
    (hnext : ∀ p < n, next p = p + len (mem p)) {p : ℕ} (hp : p ≤ n) :
    (∃ k, next^[k] p = n ∧ ∀ i < k, next^[i] p < next^[i + 1] p) ↔ Lands len (units mem p n) := by
  constructor
  · rintro ⟨k, hk, hmono⟩
    -- the places go up to the last
    have hle : ∀ j, ∀ i, i + j = k → next^[i] p ≤ n := by
      intro j
      induction j with
      | zero =>
        rintro i rfl
        exact hk.le
      | succ j ih =>
        intro i hi
        exact (hmono i (by omega)).le.trans (ih (i + 1) (by omega))
    induction k generalizing p with
    | zero =>
      rw [Function.iterate_zero_apply] at hk
      rw [hk, units_self]
      exact .nil
    | succ k ih =>
      have hlt : p < n := (hmono 0 (Nat.succ_pos k)).trans_le (hle k 1 (by omega))
      have hnextle : next p ≤ n := hle k 1 (by omega)
      have hrest : Lands len (units mem (next p) n) :=
        ih hnextle hk (fun i hi => hmono (i + 1) (by omega))
          fun j i hi => hle j (i + 1) (by omega)
      rw [hnext p hlt] at hrest hnextle
      exact lands_units_of_step (hpos _) hnextle hrest
  · intro h
    induction hd : n - p using Nat.strongRecOn generalizing p with
    | ind d ih =>
      rcases Nat.lt_or_ge p n with hlt | hge
      · obtain ⟨hle, hlen, hrest⟩ := step_of_lands_units hlt h
        rw [← hnext p hlt] at hle hrest
        have hstep := hnext p hlt
        obtain ⟨k, hk, hmono⟩ := ih (n - next p) (by omega) hle hrest rfl
        refine ⟨k + 1, hk, fun i hi => ?_⟩
        cases i with
        | zero =>
          change p < next p
          omega
        | succ i => exact hmono i (by omega)
      · refine ⟨0, ?_, fun i hi => absurd hi (Nat.not_lt_zero i)⟩
        rw [Function.iterate_zero_apply]
        omega

end Walk

variable {α : Type} [Zero α]

theorem Terminated.units_text (s : Terminated α) : units s.mem 0 s.length = s.text := by
  rw [units, Terminated.text, Nat.sub_zero, List.range_eq_range']

theorem reachesEnd_iff {len : α → ℕ} (hpos : ∀ u, 0 < len u) (s : Terminated α) {next : ℕ → ℕ}
    (hnext : ∀ p < s.length, next p = p + len (s.mem p)) :
    ReachesEnd next s.length ↔ Lands len s.text := by
  rw [← s.units_text]
  exact reachesEnd_from_iff hpos hnext (Nat.zero_le _)

/-! ### The conversion -/

theorem isLetter_of_changed {c : UInt8} {bLower : Bool} (h : convertCase bLower c ≠ c) :
    IsLetter c := by
  unfold convertCase tolower toupper at h
  unfold IsLetter
  split_ifs at h with hl hc hc
  · exact .inl hc
  · exact absurd rfl h
  · exact .inr hc
  · exact absurd rfl h

theorem convertAt_of_ne (bLower : Bool) (src : ℕ → UInt8) {p i : ℕ} (h : i ≠ p) :
    convertAt bLower src p i = src i := by
  unfold convertAt
  split_ifs
  · exact Function.update_of_ne h _ _
  · rfl

theorem lt_mbsinc (src : ℕ → UInt8) (p : ℕ) : p < mbsinc src p :=
  Nat.lt_add_of_pos_right (UTF8CharLength_pos (src p))

theorem units_convertAt (bLower : Bool) (src : ℕ → UInt8) (p n : ℕ) :
    units (convertAt bLower src p) (mbsinc src p) n = units src (mbsinc src p) n :=
  List.map_congr_left fun _ hi =>
    convertAt_of_ne bLower src ((lt_mbsinc src p).trans_le (List.mem_range'_1.1 hi).1).ne'

/-- **A byte that is changed is a letter.** -/
theorem convertAt_changed {bLower : Bool} {src : ℕ → UInt8} {p i : ℕ}
    (h : convertAt bLower src p i ≠ src i) : i = p ∧ IsLetter (src i) := by
  have hip : i = p := by
    by_contra hne
    exact h (convertAt_of_ne bLower src hne)
  subst hip
  unfold convertAt at h
  split_ifs at h with hone
  · rw [Function.update_self] at h
    exact ⟨rfl, isLetter_of_changed h⟩
  · exact absurd rfl h

/-- The conversion from a place on: where the string lands it stays inside, changes letters, and
leaves what is in front. -/
theorem mbscvt_of_lands (bLower : Bool) {src : ℕ → UInt8} {p n : ℕ} (hp : p ≤ n)
    (hn : src n = 0) (hne : ∀ i, p ≤ i → i < n → src i ≠ 0)
    (h : Lands UTF8CharLength (units src p n)) :
    ∃ fuel src' places, mbscvt bLower fuel src p = some (src', places) ∧
      (∀ q ∈ places, q ≤ n) ∧ ∀ i, src' i ≠ src i → p ≤ i ∧ i < n ∧ IsLetter (src i) := by
  induction hd : n - p using Nat.strongRecOn generalizing p src with
  | ind d ih =>
    rcases Nat.lt_or_ge p n with hlt | hge
    · obtain ⟨hle, -, hrest⟩ := step_of_lands_units hlt h
      have hnext := lt_mbsinc src p
      obtain ⟨fuel, src', places, hrun, hplaces, hchanged⟩ := @ih (n - mbsinc src p) (by omega)
        (convertAt bLower src p) (mbsinc src p) hle
        (by rw [convertAt_of_ne bLower src hlt.ne', hn])
        (fun i hi hin => by
          rw [convertAt_of_ne bLower src (hnext.trans_le hi).ne']
          exact hne i (hnext.le.trans hi) hin)
        (by rw [units_convertAt]; exact hrest) rfl
      refine ⟨fuel + 1, src', p :: places, ?_, fun q hq => ?_, fun i hi => ?_⟩
      · rw [mbscvt, if_neg (hne p (Nat.le_refl p) hlt), hrun, Option.map_some]
      · rcases List.mem_cons.1 hq with rfl | hq
        · exact hp
        · exact hplaces q hq
      · by_cases hs : src' i = convertAt bLower src p i
        · -- the byte of this character
          rw [hs] at hi
          obtain ⟨rfl, hletter⟩ := convertAt_changed hi
          exact ⟨Nat.le_refl i, hlt, hletter⟩
        · obtain ⟨hge, hin, hletter⟩ := hchanged i hs
          rw [convertAt_of_ne bLower src (hnext.trans_le hge).ne'] at hletter
          exact ⟨hnext.le.trans hge, hin, hletter⟩
    · obtain rfl : p = n := Nat.le_antisymm hp hge
      refine ⟨1, src, [p], by rw [mbscvt, if_pos hn], fun q hq => ?_, fun i hi => absurd rfl hi⟩
      rw [List.mem_singleton.1 hq]

theorem mem_places_of_mbscvt {bLower : Bool} {fuel : ℕ} {src : ℕ → UInt8} {p : ℕ}
    {r : (ℕ → UInt8) × List ℕ} (hrun : mbscvt bLower fuel src p = some r) : p ∈ r.2 := by
  cases fuel with
  | zero => cases hrun
  | succ fuel =>
    rw [mbscvt] at hrun
    split_ifs at hrun
    · cases hrun
      exact List.mem_singleton.2 rfl
    · obtain ⟨r', -, rfl⟩ := Option.map_eq_some_iff.1 hrun
      exact List.mem_cons_self

theorem lands_of_mbscvt {bLower : Bool} {fuel : ℕ} {src : ℕ → UInt8} {p n : ℕ} (hp : p ≤ n)
    (hne : ∀ i, p ≤ i → i < n → src i ≠ 0) {r : (ℕ → UInt8) × List ℕ}
    (hrun : mbscvt bLower fuel src p = some r) (hplaces : ∀ q ∈ r.2, q ≤ n) :
    Lands UTF8CharLength (units src p n) := by
  induction fuel generalizing p src r with
  | zero => cases hrun
  | succ fuel ih =>
    rw [mbscvt] at hrun
    rcases Nat.lt_or_ge p n with hlt | hge
    · rw [if_neg (hne p (Nat.le_refl p) hlt)] at hrun
      obtain ⟨r', hr', rfl⟩ := Option.map_eq_some_iff.1 hrun
      have hle : mbsinc src p ≤ n :=
        hplaces _ (List.mem_cons_of_mem _ (mem_places_of_mbscvt hr'))
      refine lands_units_of_step (UTF8CharLength_pos (src p)) hle ?_
      have hnext := lt_mbsinc src p
      have hrest := ih hle (fun i hi hin => by
        rw [convertAt_of_ne bLower src (hnext.trans_le hi).ne']
        exact hne i (hnext.le.trans hi) hin) hr' fun q hq => hplaces q (List.mem_cons_of_mem _ hq)
      rwa [units_convertAt] at hrest
    · obtain rfl : p = n := Nat.le_antisymm hp hge
      rw [units_self]
      exact .nil

/-- **The conversion stays inside the string** if the string lands. -/
theorem converts_iff (s : Terminated UInt8) (bLower : Bool) :
    Converts s bLower ↔ Lands UTF8CharLength s.text := by
  rw [← s.units_text]
  constructor
  · rintro ⟨fuel, src, places, hrun, hplaces, -⟩
    exact lands_of_mbscvt (Nat.zero_le _) (fun i _ hi => s.ne_zero i hi) hrun hplaces
  · intro h
    obtain ⟨fuel, src, places, hrun, hplaces, hchanged⟩ := mbscvt_of_lands bLower
      (Nat.zero_le _) s.nul (fun i _ hi => s.ne_zero i hi) h
    exact ⟨fuel, src, places, hrun, hplaces, fun i hi => (hchanged i hi).2⟩

/-- **Character stepping stays in the string** where no character is cut off by the `NUL`. -/
theorem stepping_iff (a : Terminated UInt8) (w : Terminated ℕ) :
    Stays a w ↔ Lands UTF8CharLength a.text ∧ Lands wideLength w.text := by
  have hA : ReachesEnd (charNextA a.mem) a.length ↔ Lands UTF8CharLength a.text :=
    reachesEnd_iff UTF8CharLength_pos a fun p hp => by
      rw [charNextA, if_neg (a.ne_zero p hp), mbsinc]
  have hW : ReachesEnd (charNextW w.mem) w.length ↔ Lands wideLength w.text :=
    reachesEnd_iff (fun u => by unfold wideLength; split_ifs <;> decide) w fun _ _ => rfl
  constructor
  · intro h
    exact ⟨hA.1 h.reachesA, hW.1 h.reachesW⟩
  · rintro ⟨ha, hw⟩
    exact ⟨hA.2 ha, fun bLower => (converts_iff a bLower).2 ha, hW.2 hw⟩

/-- The first byte of a character of two, cut off by the `NUL`. -/
def cutBytes : Terminated UInt8 where
  mem i := if i = 0 then 0xC3 else 0
  length := 1
  nul := rfl
  ne_zero i hi := by
    rw [Nat.lt_one_iff.1 hi]
    decide

/-- A lead surrogate, cut off by the `NUL`. -/
def cutUnits : Terminated ℕ where
  mem i := if i = 0 then 0xD800 else 0
  length := 1
  nul := rfl
  ne_zero i hi := by
    rw [Nat.lt_one_iff.1 hi]
    decide

/-- **The `NUL` is stepped over** after a character that it cuts off, in both forms. -/
theorem steps_over_nul :
    charNextA cutBytes.mem 0 = 2 ∧ charNextW cutUnits.mem 0 = 2 ∧ ¬Stays cutBytes cutUnits := by
  refine ⟨by decide, by decide, fun h => ?_⟩
  have hlands := (converts_iff cutBytes true).1 (h.converts true)
  generalize hl : cutBytes.text = l at hlands
  cases hlands with
  | nil => exact absurd hl (by decide)
  | cons ch tail s hlen _ =>
    obtain ⟨rfl, hnil⟩ := List.cons.inj (show [0xC3] = ch :: (tail ++ s) from hl)
    rw [(List.append_eq_nil_iff.1 hnil.symm).1] at hlen
    exact absurd hlen (by decide)

end CharNext

end Swinx
