import Mathlib.Data.Int.Order.Basic
import Mathlib.Tactic.IntervalCases

/-!
# The Gregorian calendar from 1601 on

A day is counted from 1601-01-01, the first day of a cycle of 400 years, by adding up the lengths of
the years and the months before it.

* `yearsLength_eq` — the length of the first years in closed form.
* `dayNumber_injective` — a day has one date.
-/

namespace Swinx

namespace Calendar

/-- Every fourth year is a leap year, but of the last years of a century only every fourth one. -/
def isLeap (year : ℤ) : Prop := year % 4 = 0 ∧ (year % 100 ≠ 0 ∨ year % 400 = 0)

instance decidableIsLeap (year : ℤ) : Decidable (isLeap year) :=
  inferInstanceAs (Decidable (_ ∧ _))

/-- The number of days of a month. -/
def monthLength (year month : ℤ) : ℤ :=
  if month = 2 then if isLeap year then 29 else 28
  else if month = 4 ∨ month = 6 ∨ month = 9 ∨ month = 11 then 30
  else 31

/-- A year, a month and a day of the month. -/
structure Date where
  year : ℤ
  month : ℤ
  day : ℤ
  deriving DecidableEq, Repr

/-- The date is one of the calendar. -/
def Date.Exists (d : Date) : Prop :=
  (1 ≤ d.month ∧ d.month ≤ 12) ∧ 1 ≤ d.day ∧ d.day ≤ monthLength d.year d.month

instance decidableExists (d : Date) : Decidable d.Exists :=
  inferInstanceAs (Decidable (_ ∧ _))

/-- The days of the first `n` years from 1601 on. -/
def yearsLength : ℕ → ℤ
  | 0 => 0
  | n + 1 => yearsLength n + if isLeap (1601 + n) then 366 else 365

/-- The days of the first `n` months of a year. -/
def monthsLength (year : ℤ) : ℕ → ℤ
  | 0 => 0
  | n + 1 => monthsLength year n + monthLength year (n + 1)

/-- **The days from 1601-01-01 to a date.** -/
def dayNumber (d : Date) : ℤ :=
  yearsLength (d.year - 1601).toNat + monthsLength d.year (d.month - 1).toNat + (d.day - 1)

variable {d e : Date} {year : ℤ}

/-- There is a leap day in every fourth year, but for the centuries. -/
theorem yearsLength_eq (n : ℕ) : yearsLength n = 365 * n + n / 4 - n / 100 + n / 400 := by
  induction n with
  | zero => rfl
  | succ n ih =>
    rw [yearsLength, ih]
    push_cast
    by_cases hleap : isLeap (1601 + n)
    · rw [if_pos hleap]
      rw [isLeap] at hleap
      omega
    · rw [if_neg hleap]
      rw [isLeap] at hleap
      omega

theorem monthLength_pos (year month : ℤ) : 0 < monthLength year month := by
  rw [monthLength]
  split <;> split <;> decide

theorem yearsLength_mono {m n : ℕ} (h : m ≤ n) : yearsLength m ≤ yearsLength n := by
  refine monotone_nat_of_le_succ (f := yearsLength) ?_ h
  intro k
  rw [yearsLength]
  split <;> omega

theorem monthsLength_mono (year : ℤ) {m n : ℕ} (h : m ≤ n) :
    monthsLength year m ≤ monthsLength year n := by
  refine monotone_nat_of_le_succ (f := monthsLength year) ?_ h
  intro k
  have hpos := monthLength_pos year (k + 1)
  rw [monthsLength]
  omega

theorem monthsLength_twelve (year : ℤ) :
    monthsLength year 12 = if isLeap year then 366 else 365 := by
  by_cases hleap : isLeap year <;> simp [monthsLength, monthLength, hleap]

theorem Date.Exists.month_bounds (hd : d.Exists) :
    monthsLength d.year (d.month - 1).toNat ≤
        monthsLength d.year (d.month - 1).toNat + (d.day - 1) ∧
      monthsLength d.year (d.month - 1).toNat + (d.day - 1) <
        monthsLength d.year ((d.month - 1).toNat + 1) := by
  obtain ⟨hmonth, hday⟩ := hd
  have hcast : (((d.month - 1).toNat : ℤ) + 1) = d.month := by omega
  rw [monthsLength, hcast]
  omega

theorem Date.Exists.year_bounds (hd : d.Exists) (hyear : 1601 ≤ d.year) :
    yearsLength (d.year - 1601).toNat ≤ dayNumber d ∧
      dayNumber d < yearsLength ((d.year - 1601).toNat + 1) := by
  obtain ⟨hlow, hhigh⟩ := hd.month_bounds
  have hzero := monthsLength_mono d.year (Nat.zero_le (d.month - 1).toNat)
  have hlast := monthsLength_mono d.year
    (show (d.month - 1).toNat + 1 ≤ 12 by have := hd.1; omega)
  have hcast : (1601 + ((d.year - 1601).toNat : ℤ)) = d.year := by omega
  rw [monthsLength_twelve] at hlast
  rw [monthsLength] at hzero
  rw [dayNumber, yearsLength, hcast]
  omega

/-- **A day has one date.** -/
theorem dayNumber_injective (hd : d.Exists) (he : e.Exists) (hdyear : 1601 ≤ d.year)
    (heyear : 1601 ≤ e.year) (h : dayNumber d = dayNumber e) : d = e := by
  obtain ⟨hd0, hd1⟩ := hd.year_bounds hdyear
  obtain ⟨he0, he1⟩ := he.year_bounds heyear
  have hyear : d.year = e.year := by
    rcases lt_trichotomy d.year e.year with hlt | heq | hgt
    · have hmono := yearsLength_mono
        (show (d.year - 1601).toNat + 1 ≤ (e.year - 1601).toNat by omega)
      omega
    · exact heq
    · have hmono := yearsLength_mono
        (show (e.year - 1601).toNat + 1 ≤ (d.year - 1601).toNat by omega)
      omega
  obtain ⟨hdm0, hdm1⟩ := hd.month_bounds
  obtain ⟨hem0, hem1⟩ := he.month_bounds
  have hdm := hd.1
  have hem := he.1
  rw [dayNumber, dayNumber, hyear] at h
  rw [hyear] at hdm0 hdm1
  have hmonth : d.month = e.month := by
    rcases lt_trichotomy d.month e.month with hlt | heq | hgt
    · have hmono := monthsLength_mono e.year
        (show (d.month - 1).toNat + 1 ≤ (e.month - 1).toNat by omega)
      omega
    · exact heq
    · have hmono := monthsLength_mono e.year
        (show (e.month - 1).toNat + 1 ≤ (d.month - 1).toNat by omega)
      omega
  rw [hmonth] at h
  obtain ⟨_, _, _⟩ := d
  obtain ⟨_, _, _⟩ := e
  simp only [Date.mk.injEq] at *
  omega

end Calendar

end Swinx
