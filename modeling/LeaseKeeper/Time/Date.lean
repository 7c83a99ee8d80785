/-
Dates of the Gregorian calendar, extended to all years, and their day numbers.

* `Date.dayNumber` — the days from 1970-01-01 to a date;
* `Date.ofDayNumber` — the date with a given day number;
* `Date.isValid` — whether the calendar has the date.

Design notes: years are counted from 1 March, so that the leap day ends its year and the
lengths of the twelve months follow one linear rule, `(153 * m + 2) / 5` days before month
`m`.  A cycle of 400 years has 146097 days.
-/

namespace LeaseKeeper

structure Date where
  year : Int
  month : Nat
  day : Nat
  deriving DecidableEq, Repr

namespace Date

/-- Whether the year has a 29 February. -/
def isLeapYear (year : Int) : Bool :=
  year % 4 == 0 && (year % 100 != 0 || year % 400 == 0)

def daysInMonth (year : Int) (month : Nat) : Nat :=
  if month = 2 then (if isLeapYear year then 29 else 28)
  else if month = 4 ∨ month = 6 ∨ month = 9 ∨ month = 11 then 30
  else 31

def isValid (d : Date) : Bool :=
  1 ≤ d.month && d.month ≤ 12 && 1 ≤ d.day && d.day ≤ daysInMonth d.year d.month

/-- The number of months from March to a month. -/
def monthsFromMarch (month : Nat) : Nat := (month + 9) % 12

/-- The days from 1 March of a year to the first of the month that is `m` months later. -/
def daysBeforeMonth (m : Nat) : Nat := (153 * m + 2) / 5

/-- The days from 1970-01-01 to the date. -/
def dayNumber (d : Date) : Int :=
  let year := if d.month ≤ 2 then d.year - 1 else d.year
  365 * year + year / 4 - year / 100 + year / 400 +
    (daysBeforeMonth (monthsFromMarch d.month) + d.day - 1 : Int) - 719468

/-- The date that many days after 1970-01-01. -/
def ofDayNumber (n : Int) : Date :=
  let days := n + 719468
  let cycle := days / 146097
  let dayOfCycle := (days % 146097).toNat
  let yearOfCycle :=
    (dayOfCycle - dayOfCycle / 1460 + dayOfCycle / 36524 - dayOfCycle / 146096) / 365
  let dayOfYear := dayOfCycle - (365 * yearOfCycle + yearOfCycle / 4 - yearOfCycle / 100)
  let m := (5 * dayOfYear + 2) / 153
  let month := if m < 10 then m + 3 else m - 9
  { year := yearOfCycle + 400 * cycle + (if month ≤ 2 then 1 else 0)
    month := month
    day := dayOfYear - daysBeforeMonth m + 1 }

end Date

end LeaseKeeper
