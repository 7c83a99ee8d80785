/-
Dates and their day numbers.

* `Date.dayNumber_ofDayNumber` — the date of a day number has that day number;
* `Date.isValid_ofDayNumber` — the calendar has the date of every day number;
* `Date.ofDayNumber_dayNumber_of_isValid` — and it has no others;
* `Date.year_ofDayNumber_lt_iff` — the days before a year are those before its first day;
* `Instant.year_lt_iff` — the same of instants and their seconds.

Design notes: a day is taken apart into cycles of 400 years, centuries, cycles of four years,
years and days (`DayParts`), all counted from 1 March.  On the parts every division of the
calendar's formulas is exact or has a small rest, so that linear arithmetic settles them.
-/
import LeaseKeeper.Time.Instant

namespace LeaseKeeper

namespace Date

/-! ### The parts of a day number -/

/-- A day in units that are counted from 1 March of the year 0. -/
structure DayParts where
  cycles : Int
  centuries : Nat
  fours : Nat
  years : Nat
  days : Nat
  centuries_le : centuries ≤ 3
  fours_le : fours ≤ 24
  years_le : years ≤ 3
  days_le : days ≤ 365
  /-- Only a leap year has a 366th day. -/
  leap : days = 365 → years = 3 ∧ (fours = 24 → centuries = 3)

namespace DayParts

def dayOfCycle (p : DayParts) : Nat :=
  36524 * p.centuries + 1461 * p.fours + 365 * p.years + p.days

def yearOfCycle (p : DayParts) : Nat := 100 * p.centuries + 4 * p.fours + p.years

def year (p : DayParts) : Int := p.yearOfCycle + 400 * p.cycles

def dayNumber (p : DayParts) : Int := 146097 * p.cycles + p.dayOfCycle - 719468

theorem dayOfCycle_lt (p : DayParts) : p.dayOfCycle < 146097 := by
  obtain ⟨_, c, q, k, t, hc, hq, hk, ht, hleap⟩ := p
  simp only [dayOfCycle]
  omega

theorem yearOfCycle_lt (p : DayParts) : p.yearOfCycle < 400 := by
  obtain ⟨_, c, q, k, t, hc, hq, hk, ht, hleap⟩ := p
  simp only [yearOfCycle]
  omega

theorem exists_dayNumber_eq (n : Int) : ∃ p : DayParts, p.dayNumber = n := by
  obtain ⟨d, hd⟩ : ∃ d : Nat, (d : Int) = (n + 719468) % 146097 :=
    ⟨((n + 719468) % 146097).toNat, by omega⟩
  -- The last day of a cycle is the only one in a fifth century's place.
  by_cases hlast : d = 146096
  · refine ⟨⟨(n + 719468) / 146097, 3, 24, 3, 365, by omega, by omega, by omega, by omega, by
      omega⟩, ?_⟩
    simp only [dayNumber, dayOfCycle]
    omega
  · refine ⟨⟨(n + 719468) / 146097, d / 36524, d % 36524 / 1461,
      min (d % 36524 % 1461 / 365) 3,
      d % 36524 % 1461 - 365 * min (d % 36524 % 1461 / 365) 3,
      by omega, by omega, by omega, by omega, by omega⟩, ?_⟩
    simp only [dayNumber, dayOfCycle]
    omega

/-- The divisions by 1460, 36524 and 146096 take out the leap days. -/
theorem yearOfCycle_eq (p : DayParts) :
    (p.dayOfCycle - p.dayOfCycle / 1460 + p.dayOfCycle / 36524 - p.dayOfCycle / 146096) / 365 =
      p.yearOfCycle := by
  obtain ⟨_, c, q, k, t, hc, hq, hk, ht, hleap⟩ := p
  simp only [dayOfCycle, yearOfCycle]
  have h1460 : (36524 * c + 1461 * q + 365 * k + t) / 1460 =
      25 * c + q + (24 * c + q + 365 * k + t) / 1460 := by omega
  -- On the last day of a cycle all three divisions count; on any other one the last one does not.
  by_cases hlast : c = 3 ∧ q = 24 ∧ t = 365
  · obtain ⟨rfl, rfl, rfl⟩ := hlast
    obtain ⟨rfl, -⟩ := hleap rfl
    rfl
  · have h36524 : (36524 * c + 1461 * q + 365 * k + t) / 36524 = c := by omega
    have h146096 : (36524 * c + 1461 * q + 365 * k + t) / 146096 = 0 := by omega
    rw [h1460, h36524, h146096]
    omega

theorem daysBeforeYear_eq (p : DayParts) :
    365 * p.yearOfCycle + p.yearOfCycle / 4 - p.yearOfCycle / 100 + p.days = p.dayOfCycle := by
  obtain ⟨_, c, q, k, t, hc, hq, hk, ht, hleap⟩ := p
  simp only [dayOfCycle, yearOfCycle]
  omega

end DayParts

/-! ### Months -/

/-- The months from March to the one that a day of the year lies in. -/
def monthIndex (t : Nat) : Nat := (5 * t + 2) / 153

theorem daysBeforeMonth_le (t : Nat) : daysBeforeMonth (monthIndex t) ≤ t := by
  simp only [daysBeforeMonth, monthIndex]
  omega

theorem lt_daysBeforeMonth (t : Nat) : t < daysBeforeMonth (monthIndex t + 1) := by
  simp only [daysBeforeMonth, monthIndex]
  omega

theorem monthIndex_le {t : Nat} (h : t ≤ 365) : monthIndex t ≤ 11 := by
  simp only [monthIndex]
  omega

def monthAfterMarch (m : Nat) : Nat := if m < 10 then m + 3 else m - 9

theorem monthsFromMarch_monthAfterMarch {m : Nat} (h : m ≤ 11) :
    monthsFromMarch (monthAfterMarch m) = m := by
  simp only [monthsFromMarch, monthAfterMarch]
  split <;> omega

/-- January and February end the year. -/
theorem monthAfterMarch_le_two_iff {m : Nat} (h : m ≤ 11) : monthAfterMarch m ≤ 2 ↔ 10 ≤ m := by
  simp only [monthAfterMarch]
  split <;> omega

/-- The rule for the days before a month gives each month its length; that of February is
bounded by the length of the year. -/
theorem daysBeforeMonth_succ {m : Nat} (h : m ≤ 10) (year : Int) :
    daysBeforeMonth (m + 1) = daysBeforeMonth m + daysInMonth year (monthAfterMarch m) := by
  match m, h with
  | 0, _ | 1, _ | 2, _ | 3, _ | 4, _ | 5, _ | 6, _ | 7, _ | 8, _ | 9, _ | 10, _ => rfl

/-! ### Dates -/

namespace DayParts

def date (p : DayParts) : Date where
  year := p.year + (if monthAfterMarch (monthIndex p.days) ≤ 2 then 1 else 0)
  month := monthAfterMarch (monthIndex p.days)
  day := p.days - daysBeforeMonth (monthIndex p.days) + 1

theorem ofDayNumber_dayNumber (p : DayParts) : ofDayNumber p.dayNumber = p.date := by
  have hlt := p.dayOfCycle_lt
  have hcycle : (p.dayNumber + 719468) / 146097 = p.cycles := by
    simp only [dayNumber]
    omega
  have hday : ((p.dayNumber + 719468) % 146097).toNat = p.dayOfCycle := by
    simp only [dayNumber]
    omega
  have hrest : p.dayOfCycle -
      (365 * p.yearOfCycle + p.yearOfCycle / 4 - p.yearOfCycle / 100) = p.days := by
    have := p.daysBeforeYear_eq
    omega
  simp only [ofDayNumber, hcycle, hday, p.yearOfCycle_eq, hrest]
  rfl

end DayParts

theorem dayNumber_ofDayNumber (n : Int) : (ofDayNumber n).dayNumber = n := by
  obtain ⟨p, rfl⟩ := DayParts.exists_dayNumber_eq n
  rw [p.ofDayNumber_dayNumber]
  have hmonth : monthsFromMarch p.date.month = monthIndex p.days :=
    monthsFromMarch_monthAfterMarch (monthIndex_le p.days_le)
  have hyear : (if p.date.month ≤ 2 then p.date.year - 1 else p.date.year) = p.year := by
    simp only [DayParts.date]
    split <;> omega
  have hday : daysBeforeMonth (monthIndex p.days) + p.date.day = p.days + 1 := by
    have := daysBeforeMonth_le p.days
    simp only [DayParts.date]
    omega
  have hsum := p.daysBeforeYear_eq
  have hlt := p.yearOfCycle_lt
  simp only [dayNumber, hyear, hmonth]
  simp only [DayParts.year, DayParts.dayNumber]
  omega

/-- The 366th day of a year that begins on 1 March is the leap day of the next one. -/
theorem DayParts.isLeapYear_of_days {p : DayParts} (h : p.days = 365) :
    isLeapYear (p.year + 1) = true := by
  obtain ⟨_, c, q, k, t, hc, hq, hk, ht, hleap⟩ := p
  obtain ⟨rfl, hlast⟩ := hleap h
  simp only [year, yearOfCycle, isLeapYear, Bool.and_eq_true, Bool.or_eq_true, beq_iff_eq,
    bne_iff_ne]
  omega

theorem DayParts.day_le (p : DayParts) : p.date.day ≤ daysInMonth p.date.year p.date.month := by
  have hlow := daysBeforeMonth_le p.days
  have hhigh := lt_daysBeforeMonth p.days
  by_cases hm : monthIndex p.days ≤ 10
  · rw [daysBeforeMonth_succ hm p.date.year] at hhigh
    simp only [date] at hhigh ⊢
    omega
  · -- February is the last month, and its length depends on the year that follows
    have h11 : monthIndex p.days = 11 := by
      have := monthIndex_le p.days_le
      omega
    have hdate : p.date = ⟨p.year + 1, 2, p.days - 337 + 1⟩ := by
      rw [date, h11]
      rfl
    have hdays := p.days_le
    rw [hdate]
    show p.days - 337 + 1 ≤ if isLeapYear (p.year + 1) = true then 29 else 28
    split
    · omega
    · next hleap =>
      have : p.days ≠ 365 := fun h => hleap (isLeapYear_of_days h)
      omega

/-! ### Dates that the calendar has -/

theorem isValid_iff {d : Date} : d.isValid = true ↔
    1 ≤ d.month ∧ d.month ≤ 12 ∧ 1 ≤ d.day ∧ d.day ≤ daysInMonth d.year d.month := by
  simp only [isValid, Bool.and_eq_true, decide_eq_true_eq, and_assoc]

theorem isValid_ofDayNumber (n : Int) : (ofDayNumber n).isValid = true := by
  obtain ⟨p, rfl⟩ := DayParts.exists_dayNumber_eq n
  rw [p.ofDayNumber_dayNumber]
  have hm := monthIndex_le p.days_le
  have hday := p.day_le
  refine isValid_iff.mpr ⟨?_, ?_, ?_, hday⟩
  · simp only [DayParts.date, monthAfterMarch]
    split <;> omega
  · simp only [DayParts.date, monthAfterMarch]
    split <;> omega
  · simp only [DayParts.date]
    omega

theorem monthAfterMarch_monthsFromMarch {month : Nat} (hlow : 1 ≤ month) (hhigh : month ≤ 12) :
    monthAfterMarch (monthsFromMarch month) = month := by
  have hm : monthsFromMarch month = (month + 9) % 12 := rfl
  rw [monthAfterMarch]
  split <;> omega

theorem monthIndex_eq {t m : Nat} (hlow : daysBeforeMonth m ≤ t)
    (hhigh : t < daysBeforeMonth (m + 1)) : monthIndex t = m := by
  simp only [monthIndex, daysBeforeMonth] at *
  omega

theorem daysInMonth_le (year : Int) (month : Nat) : daysInMonth year month ≤ 31 := by
  simp only [daysInMonth]
  split <;> split <;> omega

/-- The year that begins on 1 March and has the date. -/
def marchYear (d : Date) : Int := if d.month ≤ 2 then d.year - 1 else d.year

/-- The days of that year before the date. -/
def daysFromMarch (d : Date) : Nat := daysBeforeMonth (monthsFromMarch d.month) + d.day - 1

theorem daysFromMarch_lt {d : Date} (h : d.isValid = true) :
    d.daysFromMarch < daysBeforeMonth (monthsFromMarch d.month + 1) ∧ d.daysFromMarch ≤ 365 ∧
      (d.daysFromMarch = 365 → d.month = 2 ∧ isLeapYear d.year = true) := by
  obtain ⟨hmin, hmax, hfirst, hlast⟩ := isValid_iff.mp h
  have hafter := monthAfterMarch_monthsFromMarch hmin hmax
  have hbound : monthsFromMarch d.month ≤ 11 := by
    simp only [monthsFromMarch]
    omega
  by_cases hm : monthsFromMarch d.month ≤ 10
  · have hsucc := daysBeforeMonth_succ hm d.year
    rw [hafter] at hsucc
    have hle : daysBeforeMonth (monthsFromMarch d.month + 1) ≤ 337 := by
      simp only [daysBeforeMonth]
      omega
    simp only [daysFromMarch]
    omega
  · have heq : monthsFromMarch d.month = 11 := by omega
    have hfebruary : d.month = 2 := by
      rw [heq] at hafter
      exact hafter.symm
    have hbefore : daysBeforeMonth 11 = 337 := rfl
    have hnext : daysBeforeMonth (11 + 1) = 367 := rfl
    have hdays : daysInMonth d.year 2 = if isLeapYear d.year then 29 else 28 := rfl
    rw [hfebruary, hdays] at hlast
    rw [daysFromMarch, heq, hbefore, hnext]
    split at hlast
    · next hleap => exact ⟨by omega, by omega, fun _ => ⟨hfebruary, hleap⟩⟩
    · exact ⟨by omega, by omega, by omega⟩

theorem exists_date_eq {d : Date} (h : d.isValid = true) : ∃ p : DayParts, p.date = d := by
  obtain ⟨hmin, hmax, hfirst, hlast⟩ := isValid_iff.mp h
  obtain ⟨hlt, hle, hleap⟩ := daysFromMarch_lt h
  have hmonth := monthAfterMarch_monthsFromMarch hmin hmax
  have hindex : monthIndex d.daysFromMarch = monthsFromMarch d.month :=
    monthIndex_eq (by simp only [daysFromMarch]; omega) hlt
  obtain ⟨y, hy⟩ : ∃ y : Nat, (y : Int) = d.marchYear % 400 :=
    ⟨(d.marchYear % 400).toNat, by omega⟩
  -- Only a leap year has 29 February, which ends the year that began on 1 March.
  have hlastDay (hdays : d.daysFromMarch = 365) : y % 4 = 3 ∧ (y % 100 / 4 = 24 → y / 100 = 3) := by
    obtain ⟨hfebruary, hyes⟩ := hleap hdays
    simp only [isLeapYear, Bool.and_eq_true, Bool.or_eq_true, beq_iff_eq, bne_iff_ne] at hyes
    rw [marchYear, if_pos (by omega)] at hy
    omega
  refine ⟨⟨d.marchYear / 400, y / 100, y % 100 / 4, y % 4, d.daysFromMarch, by omega, by omega,
    by omega, hle, hlastDay⟩, ?_⟩
  have hyear : d.marchYear + (if d.month ≤ 2 then 1 else 0) = d.year := by
    rw [marchYear]
    split <;> omega
  have hday : d.daysFromMarch - daysBeforeMonth (monthsFromMarch d.month) + 1 = d.day := by
    simp only [daysFromMarch]
    omega
  have hparts : ((100 * (y / 100) + 4 * (y % 100 / 4) + y % 4 : Nat) : Int) +
      400 * (d.marchYear / 400) = d.marchYear := by omega
  simp only [DayParts.date, DayParts.year, DayParts.yearOfCycle, hindex, hmonth, hday, hparts,
    hyear]

/-- A date that the calendar has is that of its day number. -/
theorem ofDayNumber_dayNumber_of_isValid {d : Date} (h : d.isValid = true) :
    ofDayNumber d.dayNumber = d := by
  obtain ⟨p, rfl⟩ := exists_date_eq h
  have hday : p.date.dayNumber = p.dayNumber := by
    rw [← p.ofDayNumber_dayNumber, dayNumber_ofDayNumber]
  rw [hday, p.ofDayNumber_dayNumber]

/-! ### Years -/

/-- The leap days of the years before `year`, and of `year` itself. -/
def leapDays (year : Int) : Int := year / 4 - year / 100 + year / 400

theorem leapDays_mono {a b : Int} (h : a ≤ b) : leapDays a ≤ leapDays b := by
  simp only [leapDays]
  omega

theorem DayParts.dayNumber_eq (p : DayParts) :
    p.dayNumber = 365 * p.year + leapDays p.year + p.days - 719468 := by
  have hsum := p.daysBeforeYear_eq
  have hlt := p.yearOfCycle_lt
  simp only [dayNumber, year, leapDays]
  omega

theorem DayParts.date_year (p : DayParts) :
    p.date.year = p.year + if p.days < 306 then 0 else 1 := by
  have hmonth := monthAfterMarch_le_two_iff (monthIndex_le p.days_le)
  have hindex : 10 ≤ monthIndex p.days ↔ 306 ≤ p.days := by
    simp only [monthIndex]
    omega
  by_cases h : p.days < 306
  · rw [date, if_pos h, if_neg (by omega)]
  · rw [date, if_neg h, if_pos (by omega)]

def firstDay (year : Int) : Int := dayNumber ⟨year, 1, 1⟩

theorem firstDay_eq (year : Int) :
    firstDay year = 365 * (year - 1) + leapDays (year - 1) + 306 - 719468 := by
  have hindex : monthsFromMarch 1 = 10 := rfl
  have hmonth : daysBeforeMonth 10 = 306 := rfl
  simp only [firstDay, dayNumber, hindex, hmonth, leapDays]
  omega

/-- A day lies before a year if and only if it comes before 1 January of that year. -/
theorem year_ofDayNumber_lt_iff (n year : Int) :
    (ofDayNumber n).year < year ↔ n < firstDay year := by
  obtain ⟨p, rfl⟩ := DayParts.exists_dayNumber_eq n
  have hdays := p.days_le
  rw [p.ofDayNumber_dayNumber, p.date_year, p.dayNumber_eq, firstDay_eq]
  -- January and February of `year` belong to the year that began on 1 March of the one before.
  rcases Int.lt_trichotomy p.year (year - 1) with hlt | heq | hgt
  · have hmono := leapDays_mono (Int.le_of_lt hlt)
    split <;> omega
  · rw [heq]
    split <;> omega
  · have hmono := leapDays_mono (Int.le_of_lt hgt)
    split <;> omega

end Date

/-! ### Instants -/

namespace Instant

def year (a : Instant) : Int := a.civil.date.year

/-- An instant lies before a year if and only if it comes before the first second of it. -/
theorem year_lt_iff (a : Instant) (y : Int) : a.year < y ↔ a.seconds < 86400 * Date.firstDay y := by
  have h := Date.year_ofDayNumber_lt_iff (a.seconds / 86400) y
  rw [year, civil, h]
  omega

end Instant

end LeaseKeeper
