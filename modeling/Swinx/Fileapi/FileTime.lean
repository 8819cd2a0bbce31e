import Swinx.Data.Calendar

/-!
# File times

A file time counts units of 100 nanoseconds from 1601-01-01 on.  `RtlTimeToTimeFields` makes a date
and a time of day of it, `RtlTimeFieldsToTime` goes back and refuses what is no date, and two more
functions convert file times to and from the two words of a FAT file system, which count from 1980
on in steps of two seconds.

A division of C rounds towards zero, and a `CSHORT` has 16 bits.

* `timeToTimeFields_iff` — the fields of a time are its date, its time of day and its weekday.
* `timeFieldsToTime_iff` — which fields are accepted, and what they give.
* `fields_return_iff`, `dosDateTime_return_iff` — which values come back after a conversion and its
  reverse.
-/

namespace Swinx

namespace FileTime

open Calendar

/-- `TIME_FIELDS` -/
@[ext] structure TIME_FIELDS where
  Year : ℤ
  Month : ℤ
  Day : ℤ
  Hour : ℤ
  Minute : ℤ
  Second : ℤ
  Milliseconds : ℤ
  Weekday : ℤ
  deriving DecidableEq, Repr

/-- A value that is kept in a `CSHORT`. -/
def cshort (x : ℤ) : ℤ := x.bmod (2 ^ 16)

/-- `MonthLengths` -/
def MonthLengths (row : Bool) (index : ℕ) : ℤ :=
  if row then [31, 29, 31, 30, 31, 30, 31, 31, 30, 31, 30, 31].getD index 0
  else [31, 28, 31, 30, 31, 30, 31, 31, 30, 31, 30, 31].getD index 0

/-- `IsLeapYear` -/
def IsLeapYear (Year : ℤ) : Bool :=
  Year.tmod 4 = 0 ∧ (Year.tmod 100 ≠ 0 ∨ Year.tmod 400 = 0)

/-- Year, month and day as `RtlTimeToTimeFields` computes them, in years that begin in March. -/
def dateOfDays (Days : ℤ) : Date :=
  let cleaps := (3 * (4 * Days + 1227).tdiv (365 * 400 + 97) + 3).tdiv 4
  let Days := Days + (28188 + cleaps)
  let years := (20 * Days - 2442).tdiv (5 * (365 * 4 + 1))
  let yearday := Days - (years * (365 * 4 + 1)).tdiv 4
  let months := (64 * yearday).tdiv 1959
  if months < 14 then ⟨years + 1524, months - 1, yearday - (1959 * months).tdiv 64⟩
  else ⟨years + 1525, months - 13, yearday - (1959 * months).tdiv 64⟩

/-- `RtlTimeToTimeFields` -/
def RtlTimeToTimeFields (liTime : ℤ) : TIME_FIELDS :=
  let Time := liTime.tdiv 10000000
  let Days := Time.tdiv 86400
  let SecondsInDay := Time.tmod 86400
  let date := dateOfDays Days
  { Year := cshort date.year
    Month := cshort date.month
    Day := cshort date.day
    Hour := cshort (SecondsInDay.tdiv 3600)
    Minute := cshort ((SecondsInDay.tmod 3600).tdiv 60)
    Second := cshort ((SecondsInDay.tmod 3600).tmod 60)
    Milliseconds := cshort ((liTime.tmod 10000000).tdiv 10000)
    Weekday := cshort ((1 + Days).tmod 7) }

/-- The count of days in `RtlTimeFieldsToTime`. -/
def dayOfDate (d : Date) : ℤ :=
  let month := if d.month < 3 then d.month + 13 else d.month + 1
  let year := if d.month < 3 then d.year - 1 else d.year
  let cleaps := (3 * year.tdiv 100 + 3).tdiv 4
  (36525 * year).tdiv 100 - cleaps + (1959 * month).tdiv 64 + d.day - 584817

/-- The fields `RtlTimeFieldsToTime` refuses. -/
def refused (f : TIME_FIELDS) : Bool :=
  f.Milliseconds < 0 ∨ f.Milliseconds > 999 ∨ f.Second < 0 ∨ f.Second > 59 ∨ f.Minute < 0 ∨
    f.Minute > 59 ∨ f.Hour < 0 ∨ f.Hour > 23 ∨ f.Month < 1 ∨ f.Month > 12 ∨ f.Day < 1 ∨
    f.Day > MonthLengths (f.Month = 2 ∨ IsLeapYear f.Year) (f.Month - 1).toNat ∨ f.Year < 1601

/-- `RtlTimeFieldsToTime` -/
def RtlTimeFieldsToTime (f : TIME_FIELDS) : Option ℤ :=
  if refused f then none
  else
    some ((((((dayOfDate ⟨f.Year, f.Month, f.Day⟩ * 24 + f.Hour) * 60 + f.Minute) * 60 + f.Second) *
      1000 + f.Milliseconds) * 10000).bmod (2 ^ 64))

/-- The fields `DosDateTimeToFileTime` makes of the two words. -/
def dosFields (fatdate fattime : ℕ) : TIME_FIELDS where
  Year := (fatdate / 2 ^ 9 : ℕ) + 1980
  Month := (fatdate / 2 ^ 5 % 2 ^ 4 : ℕ)
  Day := (fatdate % 2 ^ 5 : ℕ)
  Hour := (fattime / 2 ^ 11 : ℕ)
  Minute := (fattime / 2 ^ 5 % 2 ^ 6 : ℕ)
  Second := (fattime % 2 ^ 5 : ℕ) * 2
  Milliseconds := 0
  Weekday := 0

/-- `DosDateTimeToFileTime` -/
def DosDateTimeToFileTime (fatdate fattime : ℕ) : Option ℤ :=
  RtlTimeFieldsToTime (dosFields fatdate fattime)

/-- `FileTimeToDosDateTime`.  Returns the date and the time. -/
def FileTimeToDosDateTime (ft : ℤ) : Option (ℕ × ℕ) :=
  let f := RtlTimeToTimeFields ft
  if f.Year < 1980 then none
  else
    some ((((f.Year - 1980) * 2 ^ 9 + f.Month * 2 ^ 5 + f.Day) % 2 ^ 16).toNat,
      ((f.Hour * 2 ^ 11 + f.Minute * 2 ^ 5 + f.Second.tdiv 2) % 2 ^ 16).toNat)

/-! ### What the fields stand for -/

/-- The date of the fields. -/
def TIME_FIELDS.date (f : TIME_FIELDS) : Date := ⟨f.Year, f.Month, f.Day⟩

/-- The fields without the weekday. -/
def TIME_FIELDS.noWeekday (f : TIME_FIELDS) : TIME_FIELDS := { f with Weekday := 0 }

/-- The time of day is one. -/
structure ProperTime (f : TIME_FIELDS) : Prop where
  hour : 0 ≤ f.Hour ∧ f.Hour ≤ 23
  minute : 0 ≤ f.Minute ∧ f.Minute ≤ 59
  second : 0 ≤ f.Second ∧ f.Second ≤ 59
  milliseconds : 0 ≤ f.Milliseconds ∧ f.Milliseconds ≤ 999

/-- **The fields are a date of the calendar and a time of day.** -/
structure Proper (f : TIME_FIELDS) : Prop where
  date : f.date.Exists
  year : 1601 ≤ f.Year
  time : ProperTime f

/-- The 29th of February of a year that has none. -/
def NoSuchDay (d : Date) : Prop := d.month = 2 ∧ d.day = 29 ∧ ¬ isLeap d.year

/-- **The time the fields stand for.** -/
def ticks (f : TIME_FIELDS) : ℤ :=
  ((((dayNumber f.date * 24 + f.Hour) * 60 + f.Minute) * 60 + f.Second) * 1000 + f.Milliseconds) *
    10000

variable {f g : TIME_FIELDS} {d : Date} {n t : ℤ}

theorem monthLength_le (year month : ℤ) : monthLength year month ≤ 31 := by
  rw [monthLength]
  split_ifs <;> omega

/-- The days of the months before, in years that begin in March. -/
theorem monthsLength_eq (year : ℤ) {month : ℤ} (h : 1 ≤ month ∧ month ≤ 12) :
    monthsLength year (month - 1).toNat =
      if month < 3 then 1959 * (month + 13) / 64 - 428
      else 1959 * (month + 1) / 64 - 63 + if isLeap year then 1 else 0 := by
  obtain ⟨hlow, hhigh⟩ := h
  by_cases hleap : isLeap year <;> interval_cases month <;>
    simp [monthsLength, monthLength, hleap]

/-- The days of the years before, of years that begin in March. -/
theorem yearDays_eq {year : ℤ} (h : 0 ≤ year) :
    (36525 * year).tdiv 100 - (3 * year.tdiv 100 + 3).tdiv 4 =
      365 * year + year / 4 - year / 100 + year / 400 := by
  have hcentury : year.tdiv 100 = year / 100 := Int.tdiv_eq_ediv_of_nonneg h
  rw [hcentury, Int.tdiv_eq_ediv_of_nonneg (by omega), Int.tdiv_eq_ediv_of_nonneg (by omega)]
  have hdays : 36525 * year / 100 = 365 * year + year / 4 := by omega
  have hleaps : (3 * (year / 100) + 3) / 4 = year / 100 - year / 100 / 4 := by omega
  have hfour : year / 100 / 4 = year / 400 := by omega
  rw [hdays, hleaps, hfour]
  omega

/-- **The days are counted as in the calendar.** -/
theorem dayOfDate_eq (hyear : 1601 ≤ d.year) (hmonth : 1 ≤ d.month ∧ d.month ≤ 12) :
    dayOfDate d = dayNumber d := by
  obtain ⟨year, month, day⟩ := d
  dsimp only at hyear hmonth
  have hlength := monthsLength_eq year hmonth
  have hyears := yearsLength_eq (year - 1601).toNat
  have hcast : ((year - 1601).toNat : ℤ) = year - 1601 := by omega
  rw [hcast] at hyears
  rw [dayNumber, hlength, hyears, dayOfDate]
  dsimp only
  clear hlength hyears hcast
  by_cases hmarch : month < 3
  · have hdays := yearDays_eq (show 0 ≤ year - 1 by omega)
    rw [if_pos hmarch, if_pos hmarch, if_pos hmarch,
      Int.tdiv_eq_ediv_of_nonneg (show 0 ≤ 1959 * (month + 13) by omega), hdays]
    omega
  · have hdays := yearDays_eq (show 0 ≤ year by omega)
    rw [if_neg hmarch, if_neg hmarch, if_neg hmarch,
      Int.tdiv_eq_ediv_of_nonneg (show 0 ≤ 1959 * (month + 1) by omega), hdays]
    -- the leap day of the year is before the first of March
    by_cases hleap : isLeap year
    · rw [if_pos hleap]
      rw [isLeap] at hleap
      omega
    · rw [if_neg hleap]
      rw [isLeap] at hleap
      omega

/-- The century, the year and the day of the year that are computed of a day. -/
structure Computed (n c years yearday : ℤ) : Prop where
  century_eq : c = (4 * n + 1227) / 146097
  years_eq : years = (20 * (n + (28188 + (c - c / 4))) - 2442) / 7305
  yearday_eq : yearday = n + (28188 + (c - c / 4)) - years * 1461 / 4

namespace Computed

variable {c years yearday : ℤ}

theorem year_bounds (h : Computed n c years yearday) :
    100 * c + 76 ≤ years ∧ years ≤ 100 * c + 175 := by
  obtain ⟨hc, hyears, -⟩ := h
  omega

theorem yearday_bounds (h : Computed n c years yearday) : 123 ≤ yearday ∧ yearday ≤ 488 := by
  obtain ⟨-, hyears, hyearday⟩ := h
  omega

/-- A year of 366 days ends before a year that is divided by four. -/
theorem mod_four_of_long {day w : ℤ} (hnext : 20 * day - 2442 < 7305 * years + 7305)
    (hdays : 1461 * years < 4 * w + 4) (hlong : day - w = 488) : years % 4 = 3 := by
  omega

theorem century_of_long (hnext : 4 * n + 1227 < 146097 * c + 146097)
    (hlong : n + (28188 + (c - c / 4)) - (100 * c + 175) * 1461 / 4 = 488) : c % 4 = 3 := by
  have hdays : (100 * c + 175) * 1461 / 4 = 36525 * c + 63918 := by omega
  rw [hdays] at hlong
  clear hdays
  omega

/-- **The last day of a year that begins in March** is the leap day. -/
theorem leap_day (h : Computed n c years yearday) (hlast : yearday = 488) :
    isLeap (years + 1525) := by
  have hnextCentury : 4 * n + 1227 < 146097 * c + 146097 := by
    rw [h.century_eq]
    omega
  have hnextYear : 20 * (n + (28188 + (c - c / 4))) - 2442 < 7305 * years + 7305 := by
    rw [h.years_eq]
    omega
  have hlong := h.yearday_eq.symm.trans hlast
  have hfour := mod_four_of_long hnextYear (show 1461 * years < 4 * (years * 1461 / 4) + 4 by omega)
    hlong
  have hbounds := h.year_bounds
  rw [isLeap]
  -- a year that is divided by a hundred is the last one of its century
  by_cases hcentury : years = 100 * c + 175
  · rw [hcentury] at hlong
    have hc := century_of_long hnextCentury hlong
    clear h hnextCentury hnextYear hlong hbounds
    omega
  · clear h hnextCentury hnextYear hlong
    omega

theorem yearDays (h : Computed n c years yearday) :
    365 * (years + 1524) + (years + 1524) / 4 - (years + 1524) / 100 + (years + 1524) / 400 =
      n - yearday + 584817 := by
  have hbounds := h.year_bounds
  have hyearday := h.yearday_eq
  have h100 : (years + 1524) / 100 = c + 16 := by omega
  have h400 : (years + 1524) / 400 = c / 4 + 4 := by omega
  have h4 : years * 1461 / 4 = 365 * years + years / 4 := by omega
  rw [h100, h400, hyearday, h4]
  omega

theorem years_le (h : Computed n c years yearday) (hn : 0 ≤ n) :
    76 ≤ years ∧ years ≤ n / 365 + 77 := by
  have hbounds := h.year_bounds
  have hdays := h.yearDays
  have hday := h.yearday_bounds
  have hc : 0 ≤ c := by
    rw [h.century_eq]
    omega
  clear h
  omega

end Computed

/-- The date of a day of a year that begins in March. -/
def marchDate (years yearday : ℤ) : Date :=
  let months := 64 * yearday / 1959
  if months < 14 then ⟨years + 1524, months - 1, yearday - 1959 * months / 64⟩
  else ⟨years + 1525, months - 13, yearday - 1959 * months / 64⟩

theorem marchDate_exists {years yearday : ℤ} (hday : 123 ≤ yearday ∧ yearday ≤ 488)
    (hleap : yearday = 488 → isLeap (years + 1525)) : (marchDate years yearday).Exists := by
  have hmonth : 4 ≤ 64 * yearday / 1959 ∧ 64 * yearday / 1959 ≤ 15 := by omega
  have hlow : 1959 * (64 * yearday / 1959) ≤ 64 * yearday := by omega
  have hhigh : 64 * yearday < 1959 * (64 * yearday / 1959) + 1959 := by omega
  rw [marchDate]
  generalize 64 * yearday / 1959 = months at hmonth hlow hhigh
  obtain ⟨h4, h15⟩ := hmonth
  by_cases hlast : yearday = 488
  · obtain rfl : months = 15 := by omega
    rw [hlast]
    simp [Date.Exists, monthLength, hleap hlast]
  · -- the other days of a February are 28 at most
    interval_cases months <;> simp [Date.Exists, monthLength] <;> omega

theorem dayOfDate_spring {year months day : ℤ} (h : 4 ≤ months) :
    dayOfDate ⟨year, months - 1, day⟩ = (36525 * year).tdiv 100 - (3 * year.tdiv 100 + 3).tdiv 4 +
      (1959 * months).tdiv 64 + day - 584817 := by
  have hmarch : ¬ months - 1 < 3 := by omega
  simp only [dayOfDate, if_neg hmarch, Int.sub_add_cancel]

theorem dayOfDate_winter {year months day : ℤ} (h : months ≤ 15) :
    dayOfDate ⟨year + 1, months - 13, day⟩ =
      (36525 * year).tdiv 100 - (3 * year.tdiv 100 + 3).tdiv 4 + (1959 * months).tdiv 64 + day -
        584817 := by
  have hmarch : months - 13 < 3 := by omega
  simp only [dayOfDate, if_pos hmarch, Int.sub_add_cancel, Int.add_sub_cancel]

theorem marchDate_count {years yearday : ℤ} (hn : 0 ≤ n)
    (hyears : 76 ≤ years ∧ years ≤ n / 365 + 77)
    (hday : 123 ≤ yearday ∧ yearday ≤ 488)
    (hdays : 365 * (years + 1524) + (years + 1524) / 4 - (years + 1524) / 100 +
      (years + 1524) / 400 = n - yearday + 584817) :
    1601 ≤ (marchDate years yearday).year ∧ (marchDate years yearday).year ≤ n / 365 + 1602 ∧
      dayOfDate (marchDate years yearday) = n := by
  have hmonth : 4 ≤ 64 * yearday / 1959 ∧ 64 * yearday / 1959 ≤ 15 := by
    clear hdays
    omega
  have hmarch : (36525 * (years + 1524)).tdiv 100 - (3 * (years + 1524).tdiv 100 + 3).tdiv 4 +
      (1959 * (64 * yearday / 1959)).tdiv 64 + (yearday - 1959 * (64 * yearday / 1959) / 64) -
      584817 = n := by
    rw [yearDays_eq (by omega), hdays, Int.tdiv_eq_ediv_of_nonneg (by omega)]
    omega
  have hfirst : 64 * yearday / 1959 < 14 → 77 ≤ years := by
    -- March of 1600 is before the first day
    intro hspring
    by_contra hlt
    obtain rfl : years = 76 := by omega
    omega
  clear hdays
  rw [marchDate]
  by_cases hend : 64 * yearday / 1959 < 14
  · simp only [if_pos hend]
    have hyear := hfirst hend
    exact ⟨by omega, by omega, (dayOfDate_spring hmonth.1).trans hmarch⟩
  · simp only [if_neg hend]
    have hyear : years + 1525 = years + 1524 + 1 := by omega
    rw [hyear]
    exact ⟨by omega, by omega, (dayOfDate_winter hmonth.2).trans hmarch⟩

/-- **The date of a day is the one of the calendar.** -/
theorem dateOfDays_spec (hn : 0 ≤ n) : (dateOfDays n).Exists ∧ dayNumber (dateOfDays n) = n ∧
    1601 ≤ (dateOfDays n).year ∧ (dateOfDays n).year ≤ n / 365 + 1602 := by
  obtain ⟨c, years, yearday, h⟩ : ∃ c years yearday, Computed n c years yearday :=
    ⟨_, _, _, rfl, rfl, rfl⟩
  have hday := h.yearday_bounds
  have hbounds := h.years_le hn
  have hdate : dateOfDays n = marchDate years yearday := by
    obtain ⟨hc, hyears, hyearday⟩ := h
    have h1 : (4 * n + 1227).tdiv (365 * 400 + 97) = c := by
      rw [Int.tdiv_eq_ediv_of_nonneg (by omega), hc]
      rfl
    have h2 : (3 * c + 3).tdiv 4 = c - c / 4 := by
      rw [Int.tdiv_eq_ediv_of_nonneg (by omega)]
      omega
    have h3 : (20 * (n + (28188 + (c - c / 4))) - 2442).tdiv (5 * (365 * 4 + 1)) = years := by
      rw [Int.tdiv_eq_ediv_of_nonneg (by omega), hyears]
      rfl
    have h4 : n + (28188 + (c - c / 4)) - (years * (365 * 4 + 1)).tdiv 4 = yearday := by
      rw [Int.tdiv_eq_ediv_of_nonneg (by omega), hyearday]
      rfl
    have h5 : (64 * yearday).tdiv 1959 = 64 * yearday / 1959 :=
      Int.tdiv_eq_ediv_of_nonneg (by omega)
    have h6 : (1959 * (64 * yearday / 1959)).tdiv 64 = 1959 * (64 * yearday / 1959) / 64 :=
      Int.tdiv_eq_ediv_of_nonneg (by omega)
    simp only [dateOfDays, h1, h2, h3, h4, h5, h6]
    rfl
  have hexists := marchDate_exists hday h.leap_day
  obtain ⟨hyear, hnext, hcount⟩ := marchDate_count hn hbounds hday h.yearDays
  rw [hdate]
  exact ⟨hexists, by rw [← dayOfDate_eq hyear hexists.1, hcount], hyear, hnext⟩

/-! ### Times and fields -/

theorem cshort_eq {x : ℤ} (h : 0 ≤ x ∧ x < 32768) : cshort x = x := by
  rw [cshort, Int.bmod_def]
  norm_num
  omega

/-- The fields of a time are its date, its time of day and its weekday. -/
theorem fields_of_time {t : ℤ} (ht : 0 ≤ t ∧ t < 2 ^ 63) :
    Proper (RtlTimeToTimeFields t) ∧
      (RtlTimeToTimeFields t).Weekday = (1 + dayNumber (RtlTimeToTimeFields t).date) % 7 ∧
      ticks (RtlTimeToTimeFields t) = t - t % 10000 := by
  obtain ⟨ht0, ht1⟩ := ht
  norm_num at ht1
  have htime : t.tdiv 10000000 = t / 10000000 := Int.tdiv_eq_ediv_of_nonneg ht0
  have hms : t.tmod 10000000 = t % 10000000 := Int.tmod_eq_emod_of_nonneg ht0
  set seconds := t / 10000000 with hseconds
  have hseconds0 : 0 ≤ seconds := by omega
  have hdays : seconds.tdiv 86400 = seconds / 86400 := Int.tdiv_eq_ediv_of_nonneg hseconds0
  have hrest : seconds.tmod 86400 = seconds % 86400 := Int.tmod_eq_emod_of_nonneg hseconds0
  set days := seconds / 86400 with hday
  set rest := seconds % 86400 with hrestDef
  have hdays0 : 0 ≤ days ∧ days ≤ 10675199 := by omega
  have hrest0 : 0 ≤ rest ∧ rest < 86400 := by omega
  obtain ⟨hexists, hnumber, hyear, hyear'⟩ := dateOfDays_spec hdays0.1
  have hmonth := hexists.1
  have hdayLength : 1 ≤ (dateOfDays days).day ∧ (dateOfDays days).day ≤ 31 :=
    ⟨hexists.2.1, hexists.2.2.trans (monthLength_le _ _)⟩
  have hfields : RtlTimeToTimeFields t =
      { Year := (dateOfDays days).year, Month := (dateOfDays days).month
        Day := (dateOfDays days).day, Hour := rest / 3600, Minute := rest % 3600 / 60
        Second := rest % 60, Milliseconds := t % 10000000 / 10000
        Weekday := (1 + days) % 7 } := by
    have h1 : rest.tdiv 3600 = rest / 3600 := Int.tdiv_eq_ediv_of_nonneg hrest0.1
    have h2 : rest.tmod 3600 = rest % 3600 := Int.tmod_eq_emod_of_nonneg hrest0.1
    have h3 : (rest % 3600).tdiv 60 = rest % 3600 / 60 := Int.tdiv_eq_ediv_of_nonneg (by omega)
    have h4 : (rest % 3600).tmod 60 = rest % 60 := by
      rw [Int.tmod_eq_emod_of_nonneg (by omega)]
      omega
    have h5 : (t % 10000000).tdiv 10000 = t % 10000000 / 10000 :=
      Int.tdiv_eq_ediv_of_nonneg (by omega)
    have h6 : (1 + days).tmod 7 = (1 + days) % 7 := Int.tmod_eq_emod_of_nonneg (by omega)
    simp only [RtlTimeToTimeFields, htime, hms, hdays, hrest, h1, h2, h3, h4, h5, h6,
      TIME_FIELDS.mk.injEq]
    refine ⟨cshort_eq ?_, cshort_eq ?_, cshort_eq ?_, cshort_eq ?_, cshort_eq ?_, cshort_eq ?_,
      cshort_eq ?_, cshort_eq ?_⟩ <;> omega
  have hclock : rest = (rest / 3600 * 60 + rest % 3600 / 60) * 60 + rest % 60 := by omega
  have hsplit : seconds = days * 86400 + rest := by omega
  rw [hfields]
  refine ⟨⟨hexists, hyear, ⟨?_, ?_, ?_, ?_⟩⟩, ?_, ?_⟩
  · dsimp only
    omega
  · dsimp only
    omega
  · dsimp only
    omega
  · dsimp only
    omega
  · change (1 + days) % 7 = (1 + dayNumber (dateOfDays days)) % 7
    rw [hnumber]
  · have hdate : dayNumber ⟨(dateOfDays days).year, (dateOfDays days).month,
        (dateOfDays days).day⟩ = days := hnumber
    simp only [ticks, TIME_FIELDS.date, hdate]
    clear hfields hnumber hdate hexists hyear hyear' hmonth hdayLength
    omega

/-- The fields `RtlTimeFieldsToTime` accepts. -/
structure Accepted (f : TIME_FIELDS) : Prop where
  date : f.date.Exists ∨ NoSuchDay f.date
  year : 1601 ≤ f.Year
  time : ProperTime f

theorem refused_eq_false_iff : refused f = false ↔ Accepted f := by
  have hleap : IsLeapYear f.Year = true ∨ IsLeapYear f.Year = false := by
    cases IsLeapYear f.Year <;> simp
  have hlength : ∀ row : Bool, 1 ≤ f.Month → f.Month ≤ 12 → MonthLengths
      (f.Month = 2 ∨ IsLeapYear f.Year) (f.Month - 1).toNat =
        if f.Month = 2 then 29 else monthLength f.Year f.Month := by
    intro _ h1 h12
    generalize f.Month = month at h1 h12
    rcases hleap with h | h <;> rw [h] <;> interval_cases month <;>
      simp [MonthLengths, monthLength]
  have hdate : f.date.Exists ∨ NoSuchDay f.date ↔ (1 ≤ f.Month ∧ f.Month ≤ 12) ∧ 1 ≤ f.Day ∧
      f.Day ≤ if f.Month = 2 then 29 else monthLength f.Year f.Month := by
    rw [Date.Exists, NoSuchDay, TIME_FIELDS.date]
    dsimp only
    by_cases hfeb : f.Month = 2
    · by_cases hl : isLeap f.Year
      · simp [hfeb, monthLength, hl]
      · simp [hfeb, monthLength, hl]
        omega
    · simp [hfeb]
  constructor
  · intro h
    simp only [refused, decide_eq_false_iff_not, not_or, not_lt] at h
    obtain ⟨h1, h2, h3, h4, h5, h6, h7, h8, h9, h10, h11, h12, h13⟩ := h
    rw [hlength true h9 h10] at h12
    exact ⟨hdate.2 ⟨⟨h9, h10⟩, h11, h12⟩, h13, ⟨⟨h7, h8⟩, ⟨h5, h6⟩, ⟨h3, h4⟩, ⟨h1, h2⟩⟩⟩
  · rintro ⟨hd, hyear, ⟨hour, minute, second, ms⟩⟩
    obtain ⟨hmonth, hday⟩ := hdate.1 hd
    simp only [refused, decide_eq_false_iff_not, not_or, not_lt]
    rw [hlength true hmonth.1 hmonth.2]
    exact ⟨ms.1, ms.2, second.1, second.2, minute.1, minute.2, hour.1, hour.2, hmonth.1, hmonth.2,
      hday.1, hday.2, hyear⟩

theorem Accepted.month (h : Accepted f) :
    (1 ≤ f.Month ∧ f.Month ≤ 12) ∧ 1 ≤ f.Day ∧ f.Day ≤ 31 := by
  rcases h.date with ⟨hmonth, hday, hlast⟩ | ⟨hmonth, hday, -⟩
  · refine ⟨hmonth, hday, hlast.trans ?_⟩
    rw [monthLength]
    split_ifs <;> omega
  · simp only [TIME_FIELDS.date] at hmonth hday
    omega

theorem dayNumber_bounds (hmonth : 1 ≤ d.month ∧ d.month ≤ 12) (hday : 1 ≤ d.day ∧ d.day ≤ 31) :
    yearsLength (d.year - 1601).toNat ≤ dayNumber d ∧
      dayNumber d ≤ yearsLength (d.year - 1601).toNat + 396 := by
  have hlow := monthsLength_mono d.year (Nat.zero_le (d.month - 1).toNat)
  have hhigh := monthsLength_mono d.year (show (d.month - 1).toNat ≤ 12 by omega)
  rw [monthsLength_twelve] at hhigh
  rw [monthsLength] at hlow
  rw [dayNumber]
  split_ifs at hhigh <;> omega

theorem Accepted.ticks_bounds (h : Accepted f) (hyear : f.Year ≤ 30827) :
    0 ≤ ticks f ∧ ticks f < 2 ^ 63 := by
  have hnumber := dayNumber_bounds (d := f.date) h.month.1 h.month.2
  obtain ⟨-, hyear0, ⟨hour, minute, second, ms⟩⟩ := h
  have hcast : ((f.Year - 1601).toNat : ℤ) = f.Year - 1601 := by omega
  rw [yearsLength_eq] at hnumber
  change 365 * ((f.Year - 1601).toNat : ℤ) + (f.Year - 1601).toNat / 4 -
    (f.Year - 1601).toNat / 100 + (f.Year - 1601).toNat / 400 ≤ _ ∧ _ ≤
    365 * ((f.Year - 1601).toNat : ℤ) + (f.Year - 1601).toNat / 4 -
    (f.Year - 1601).toNat / 100 + (f.Year - 1601).toNat / 400 + 396 at hnumber
  rw [hcast] at hnumber
  have hdays : 0 ≤ dayNumber f.date ∧ dayNumber f.date ≤ 10675198 := by omega
  clear hnumber hcast
  rw [ticks]
  norm_num
  omega

/-- **Which fields are accepted, and what they give**: those that are a date and a time of day, and
the 29th of February of every year. -/
theorem timeFieldsToTime_iff (hyear : f.Year ≤ 30827) :
    RtlTimeFieldsToTime f = some t ↔ Accepted f ∧ t = ticks f := by
  rw [RtlTimeFieldsToTime]
  cases hr : refused f with
  | true =>
    have hnot : ¬ Accepted f := fun h => by
      rw [← refused_eq_false_iff, hr] at h
      cases h
    rw [if_pos rfl]
    exact ⟨fun h => (nomatch h), fun h => absurd h.1 hnot⟩
  | false =>
    have hacc := refused_eq_false_iff.1 hr
    have hbounds := hacc.ticks_bounds hyear
    have hday : dayOfDate ⟨f.Year, f.Month, f.Day⟩ = dayNumber f.date :=
      dayOfDate_eq hacc.year hacc.month.1
    have hwrap : (ticks f).bmod (2 ^ 64) = ticks f := by
      rw [Int.bmod_def]
      norm_num at hbounds ⊢
      omega
    rw [if_neg Bool.false_ne_true, hday]
    change some ((ticks f).bmod (2 ^ 64)) = some t ↔ _
    rw [hwrap, Option.some.injEq, eq_comm]
    exact ⟨fun h => ⟨hacc, h⟩, fun h => h.2⟩

/-- Two fields that stand for the same time are the same, but for the weekday. -/
theorem eq_of_ticks_eq (hf : Proper f) (hg : Proper g) (h : ticks f = ticks g) :
    f.noWeekday = g.noWeekday := by
  obtain ⟨hfd, hfy, ⟨hfh, hfm, hfs, hfms⟩⟩ := hf
  obtain ⟨hgd, hgy, ⟨hgh, hgm, hgs, hgms⟩⟩ := hg
  rw [ticks, ticks] at h
  have hdate : f.date = g.date := dayNumber_injective hfd hgd hfy hgy (by omega)
  rw [hdate] at h
  -- digit by digit
  have hms : f.Milliseconds = g.Milliseconds := by omega
  have hsecond : f.Second = g.Second := by omega
  have hminute : f.Minute = g.Minute := by omega
  have hhour : f.Hour = g.Hour := by omega
  obtain ⟨hyear, hmonth, hday⟩ := Date.mk.inj hdate
  rw [TIME_FIELDS.noWeekday, TIME_FIELDS.noWeekday, hyear, hmonth, hday, hhour, hminute, hsecond,
    hms]

/-- **The fields of a time** are the ones of the calendar, with their weekday, that count as many
ticks, to the millisecond. -/
theorem timeToTimeFields_iff (t : ℤ) (ht : 0 ≤ t ∧ t < 2 ^ 63) (f : TIME_FIELDS) :
    RtlTimeToTimeFields t = f ↔
      Proper f ∧ f.Weekday = (1 + dayNumber f.date) % 7 ∧ ticks f = t - t % 10000 := by
  obtain ⟨hproper, hweekday, hticks⟩ := fields_of_time ht
  constructor
  · rintro rfl
    exact ⟨hproper, hweekday, hticks⟩
  · rintro ⟨hf, hweek, hcount⟩
    have heq := eq_of_ticks_eq hproper hf (hticks.trans hcount.symm)
    obtain ⟨h1, h2, h3, h4, h5, h6, h7, -⟩ := TIME_FIELDS.mk.inj heq
    have hday : (RtlTimeToTimeFields t).Weekday = f.Weekday := by
      rw [hweekday, hweek, TIME_FIELDS.date, TIME_FIELDS.date, h1, h2, h3]
    exact TIME_FIELDS.ext h1 h2 h3 h4 h5 h6 h7 hday

/-- The 29th of February of 2024, a Thursday, with a part of a millisecond. -/
theorem timeToTimeFields_iff_leapDay :
    RtlTimeToTimeFields 133536836967890123 = ⟨2024, 2, 29, 12, 34, 56, 789, 4⟩ ↔
      Proper ⟨2024, 2, 29, 12, 34, 56, 789, 4⟩ ∧ (4 : ℤ) = (1 + dayNumber ⟨2024, 2, 29⟩) % 7 ∧
        ticks ⟨2024, 2, 29, 12, 34, 56, 789, 4⟩ =
          133536836967890123 - 133536836967890123 % 10000 :=
  timeToTimeFields_iff 133536836967890123 (by norm_num) _

example : RtlTimeToTimeFields 133536836967890123 = ⟨2024, 2, 29, 12, 34, 56, 789, 4⟩ := by decide

/-- Fields of which a time was made come back, but for the weekday, if and only if their date is one
of the calendar. -/
theorem fields_return {t : ℤ} (hyear : f.Year ≤ 30827) (hsome : RtlTimeFieldsToTime f = some t) :
    (RtlTimeToTimeFields t).noWeekday = f.noWeekday ↔ f.date.Exists := by
  obtain ⟨hacc, rfl⟩ := (timeFieldsToTime_iff hyear).1 hsome
  obtain ⟨hproper, -, hticks⟩ := fields_of_time (hacc.ticks_bounds hyear)
  constructor
  · intro heq
    have hdate : (RtlTimeToTimeFields (ticks f)).noWeekday.date = f.noWeekday.date :=
      congrArg TIME_FIELDS.date heq
    change (RtlTimeToTimeFields (ticks f)).date = f.date at hdate
    exact hdate ▸ hproper.date
  · intro hexists
    refine eq_of_ticks_eq hproper ⟨hexists, hacc.year, hacc.time⟩ ?_
    -- what is made of milliseconds loses nothing
    have hwhole : ticks f % 10000 = 0 := by
      rw [ticks]
      omega
    rw [hticks, hwhole, sub_zero]

/-- **Which fields a time is made of, and which come back from it.** -/
theorem fields_return_iff (f : TIME_FIELDS) (hyear : f.Year ≤ 30827) (t : ℤ) :
    (RtlTimeFieldsToTime f = some t ↔ Accepted f ∧ t = ticks f) ∧
      (RtlTimeFieldsToTime f = some t →
        ((RtlTimeToTimeFields t).noWeekday = f.noWeekday ↔ f.date.Exists)) :=
  ⟨timeFieldsToTime_iff hyear, fields_return hyear⟩

/-- The 29th of February of 2023. -/
def noDay : TIME_FIELDS := ⟨2023, 2, 29, 0, 0, 0, 0, 0⟩

theorem fields_return_iff_noDay : noDay.Year ≤ 30827 ∧ ∀ t,
    (RtlTimeFieldsToTime noDay = some t ↔ Accepted noDay ∧ t = ticks noDay) ∧
      (RtlTimeFieldsToTime noDay = some t →
        ((RtlTimeToTimeFields t).noWeekday = noDay.noWeekday ↔ noDay.date.Exists)) :=
  ⟨by decide, fields_return_iff noDay (by decide)⟩

/-! ### The words of a FAT file system -/

theorem Proper.bounds (h : Proper f) : (1 ≤ f.Month ∧ f.Month ≤ 12) ∧ 1 ≤ f.Day ∧ f.Day ≤ 31 :=
  ⟨h.date.1, h.date.2.1, h.date.2.2.trans (monthLength_le _ _)⟩

/-- **The fields of the words that are made of fields**: the seconds are even then, and the year is
one of 128. -/
theorem dosFields_words (h : Proper f) :
    dosFields (((f.Year - 1980) * 2 ^ 9 + f.Month * 2 ^ 5 + f.Day) % 2 ^ 16).toNat
        ((f.Hour * 2 ^ 11 + f.Minute * 2 ^ 5 + f.Second.tdiv 2) % 2 ^ 16).toNat =
      { f with
        Year := (f.Year - 1980) % 128 + 1980, Second := f.Second - f.Second % 2
        Milliseconds := 0, Weekday := 0 } := by
  obtain ⟨hmonth, hday⟩ := h.bounds
  obtain ⟨-, -, ⟨hhour, hminute, hsecond, -⟩⟩ := h
  have hhalf : f.Second.tdiv 2 = f.Second / 2 := Int.tdiv_eq_ediv_of_nonneg hsecond.1
  simp only [dosFields, hhalf, TIME_FIELDS.mk.injEq, and_true]
  refine ⟨?_, ?_, ?_, ?_, ?_, ?_⟩ <;> omega

theorem dosFields_injective {d t d' t' : ℕ} (h : dosFields d t = dosFields d' t') :
    d = d' ∧ t = t' := by
  simp only [dosFields, TIME_FIELDS.mk.injEq, and_true] at h
  omega

/-- The time of a day that there is not is one of the first of March. -/
theorem nextDay_month (hf : Accepted f) (hg : Proper g) (h : ticks g = ticks f - ticks f % 10000)
    (hnone : NoSuchDay f.date) : g.Month = 3 := by
  obtain ⟨hfeb, hlast, hleap⟩ := hnone
  have hnext : dayNumber f.date = dayNumber ⟨f.Year, 3, 1⟩ := by
    rw [TIME_FIELDS.date] at hfeb hlast hleap ⊢
    dsimp only at hfeb hlast hleap
    rw [dayNumber, dayNumber]
    simp [monthsLength, monthLength, hfeb, hlast, hleap, add_assoc]
  have hdays : dayNumber g.date = dayNumber f.date := by
    obtain ⟨-, -, ⟨hfh, hfm, hfs, hfms⟩⟩ := hf
    obtain ⟨-, -, ⟨hgh, hgm, hgs, hgms⟩⟩ := hg
    rw [ticks, ticks] at h
    clear hnext
    omega
  have hdate := dayNumber_injective hg.date (e := ⟨f.Year, 3, 1⟩)
    ⟨⟨by norm_num, by norm_num⟩, by norm_num, by simp [monthLength]⟩ hg.year hf.year
    (hdays.trans hnext)
  exact congrArg Date.month hdate

/-- The words that are made of a file time. -/
def words (f : TIME_FIELDS) : ℕ × ℕ :=
  ((((f.Year - 1980) * 2 ^ 9 + f.Month * 2 ^ 5 + f.Day) % 2 ^ 16).toNat,
    ((f.Hour * 2 ^ 11 + f.Minute * 2 ^ 5 + f.Second.tdiv 2) % 2 ^ 16).toNat)

theorem fileTimeToDosDateTime_iff {ft : ℤ} {w : ℕ × ℕ} : FileTimeToDosDateTime ft = some w ↔
    1980 ≤ (RtlTimeToTimeFields ft).Year ∧ words (RtlTimeToTimeFields ft) = w := by
  simp only [FileTimeToDosDateTime]
  split
  · next hearly => exact ⟨fun h => (nomatch h), fun h => absurd h.1 (not_le.2 hearly)⟩
  · next hlate => exact ⟨fun h => ⟨not_lt.1 hlate, Option.some.inj h⟩, fun h => h.2 ▸ rfl⟩

/-- **Words come back** when their date is one of the calendar. -/
theorem words_return_iff {fatdate fattime : ℕ} {ft : ℤ} (hd : fatdate < 2 ^ 16)
    (h : DosDateTimeToFileTime fatdate fattime = some ft) :
    FileTimeToDosDateTime ft = some (fatdate, fattime) ↔
      (dosFields fatdate fattime).date.Exists := by
  have hyear : (dosFields fatdate fattime).Year ≤ 30827 := by
    simp only [dosFields]
    omega
  obtain ⟨hacc, hft⟩ := (timeFieldsToTime_iff hyear).1 h
  have hbounds := hacc.ticks_bounds hyear
  rw [← hft] at hbounds
  obtain ⟨hproper, -, hticks⟩ := fields_of_time hbounds
  have hback := dosFields_words hproper
  change dosFields (words _).1 (words _).2 = _ at hback
  rw [fileTimeToDosDateTime_iff]
  constructor
  · rintro ⟨-, hwords⟩
    refine hacc.date.resolve_right ?_
    intro hnone
    -- the words would be those of the first of March
    have hmarch := nextDay_month hacc hproper (by rw [hticks, ← hft]) hnone
    rw [hwords] at hback
    have hmonth : (dosFields fatdate fattime).Month = 3 :=
      (congrArg TIME_FIELDS.Month hback).trans hmarch
    exact absurd (hmonth.symm.trans hnone.1) (by decide)
  · intro hexists
    have heq := (fields_return hyear h).2 hexists
    obtain ⟨h1, h2, h3, h4, h5, h6, -, -⟩ := TIME_FIELDS.mk.inj heq
    have hsame : dosFields (words (RtlTimeToTimeFields ft)).1 (words (RtlTimeToTimeFields ft)).2 =
        dosFields fatdate fattime := by
      rw [hback, h1, h2, h3, h4, h5, h6]
      simp only [dosFields, TIME_FIELDS.mk.injEq, and_true, true_and]
      omega
    obtain ⟨hdate, htime⟩ := dosFields_injective hsame
    refine ⟨?_, Prod.ext hdate htime⟩
    rw [h1]
    simp only [dosFields]
    omega

/-- **File times come back**, up to two seconds, when their year is not after 2107. -/
theorem fileTime_return_iff {fatdate fattime : ℕ} {ft : ℤ} (hft : 0 ≤ ft ∧ ft < 2 ^ 63)
    (h : FileTimeToDosDateTime ft = some (fatdate, fattime)) :
    DosDateTimeToFileTime fatdate fattime = some (ft - ft % 20000000) ↔
      (RtlTimeToTimeFields ft).Year ≤ 2107 := by
  obtain ⟨hproper, -, hticks⟩ := fields_of_time hft
  obtain ⟨hlate, hwords⟩ := fileTimeToDosDateTime_iff.1 h
  have hback := dosFields_words hproper
  change dosFields (words _).1 (words _).2 = _ at hback
  rw [hwords] at hback
  dsimp only at hback
  generalize RtlTimeToTimeFields ft = f at hproper hticks hlate hback
  obtain ⟨hmonth, hday⟩ := hproper.bounds
  obtain ⟨hexists, hyear, ⟨hhour, hminute, hsecond, hms⟩⟩ := hproper
  rw [DosDateTimeToFileTime, hback, timeFieldsToTime_iff (by dsimp only; omega)]
  constructor
  · rintro ⟨hacc, htime⟩
    -- a later year is taken for one that is 128 years before it, or more
    by_contra hafter
    have hdays : dayNumber f.date =
        dayNumber ⟨(f.Year - 1980) % 128 + 1980, f.Month, f.Day⟩ := by
      simp only [ticks, TIME_FIELDS.date] at hticks htime ⊢
      clear hback hexists hacc
      omega
    have hlow := (dayNumber_bounds (d := f.date) hmonth hday).1
    have hhigh := (dayNumber_bounds (d := ⟨(f.Year - 1980) % 128 + 1980, f.Month, f.Day⟩) hmonth
      hday).2
    rw [yearsLength_eq] at hlow hhigh
    simp only [TIME_FIELDS.date] at hlow hhigh hdays
    clear hticks htime hback hexists hacc
    omega
  · intro hbefore
    have hsame : (f.Year - 1980) % 128 + 1980 = f.Year := by omega
    rw [hsame]
    refine ⟨⟨.inl hexists, hyear, ⟨hhour, hminute, ?_, by dsimp only; omega⟩⟩, ?_⟩
    · dsimp only
      omega
    · simp only [ticks, TIME_FIELDS.date] at hticks ⊢
      clear hback hexists
      omega

/-- **Which words and which file times come back** from the conversion and its reverse. -/
theorem dosDateTime_return_iff :
    (∀ (fatdate fattime : ℕ) (ft : ℤ), fatdate < 2 ^ 16 →
      DosDateTimeToFileTime fatdate fattime = some ft →
      (FileTimeToDosDateTime ft = some (fatdate, fattime) ↔
        (dosFields fatdate fattime).date.Exists)) ∧
    ∀ (ft : ℤ) (fatdate fattime : ℕ), 0 ≤ ft ∧ ft < 2 ^ 63 →
      FileTimeToDosDateTime ft = some (fatdate, fattime) →
      (DosDateTimeToFileTime fatdate fattime = some (ft - ft % 20000000) ↔
        (RtlTimeToTimeFields ft).Year ≤ 2107) :=
  ⟨fun _ _ _ hd h => words_return_iff hd h, fun _ _ _ hft h => fileTime_return_iff hft h⟩

/-- The first of January of 1980. -/
theorem dosDateTime_return_iff_first :
    (FileTimeToDosDateTime 119600064000000000 = some (33, 0) ↔ (dosFields 33 0).date.Exists) ∧
      (DosDateTimeToFileTime 33 0 = some (119600064000000000 - 119600064000000000 % 20000000) ↔
        (RtlTimeToTimeFields 119600064000000000).Year ≤ 2107) :=
  ⟨dosDateTime_return_iff.1 33 0 _ (by decide) (by decide),
    dosDateTime_return_iff.2 _ 33 0 (by decide) (by decide)⟩

end FileTime

end Swinx
