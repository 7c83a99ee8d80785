/-
Points in time and the time between them.

An `Instant` is a number of seconds since 1970-01-01 00:00 UTC, without leap seconds, and
nanoseconds within the second.  Nanoseconds from 10^9 on are the leap second that follows the
second, and belong only to the last second of a minute.

* `Instant.isBefore`, `Instant.reached` — the order of instants, by seconds and then by
  nanoseconds;
* `Instant.since` — the time from one instant to a later one, where a leap second between
  them counts if one of the two lies inside it;
* `Instant.civil` — date and time of day in UTC;
* `Instant.minuteText` — the text `YYYY-MM-DD HH:MM`.
-/
import LeaseKeeper.Time.Date
import LeaseKeeper.Text.Digits

namespace LeaseKeeper

/-- A point in time, in UTC. -/
structure Instant where
  seconds : Int
  nanos : Nat
  nanos_lt : nanos < 2000000000
  leap_ends_minute : 1000000000 ≤ nanos → seconds % 60 = 59
  deriving DecidableEq, Repr

/-- Date and time of day; the second is 60 within a leap second. -/
structure CivilTime where
  date : Date
  hour : Nat
  minute : Nat
  second : Nat
  nanos : Nat
  deriving DecidableEq, Repr

namespace Instant

/-- The instant at the beginning of a second. -/
def ofSeconds (seconds : Int) : Instant where
  seconds := seconds
  nanos := 0
  nanos_lt := by decide
  leap_ends_minute h := absurd h (by decide)

def epoch : Instant := ofSeconds 0

/-- The instant with the given seconds and nanoseconds, if there is one. -/
def make? (seconds : Int) (nanos : Nat) : Option Instant :=
  if h : nanos < 2000000000 ∧ (1000000000 ≤ nanos → seconds % 60 = 59) then
    some ⟨seconds, nanos, h.1, h.2⟩
  else none

/-- Whether `a` comes before `b`. -/
def isBefore (a b : Instant) : Bool :=
  a.seconds < b.seconds || (a.seconds == b.seconds && a.nanos < b.nanos)

/-- Whether `b` has come at `a`: `a` is `b` or later. -/
def reached (a b : Instant) : Bool := !a.isBefore b

/-- The second of the day, from 0 to 86399. -/
def secondOfDay (a : Instant) : Nat := (a.seconds % 86400).toNat

/-- The nanoseconds that the leap second of `a` or of `b` adds to the time from `b` to `a`: a
leap second that `b` lies in is over when the day goes on, and one that `a` lies in has not
passed yet. -/
def leapCorrection (a b : Instant) : Int :=
  if a.secondOfDay > b.secondOfDay ∧ b.nanos ≥ 1000000000 then 1000000000
  else if a.secondOfDay < b.secondOfDay ∧ a.nanos ≥ 1000000000 then -1000000000
  else 0

/-- The nanoseconds from `b` to `a`, negative if they run backwards. -/
def difference (a b : Instant) : Int :=
  (a.seconds - b.seconds) * 1000000000 + ((a.nanos : Int) - b.nanos) + leapCorrection a b

/-- The nanoseconds from `b` to `a`, unless they run backwards. -/
def since (a b : Instant) : Option Nat :=
  if 0 ≤ a.difference b then some (a.difference b).toNat else none

/-- Date and time of day in UTC. -/
def civil (a : Instant) : CivilTime where
  date := Date.ofDayNumber (a.seconds / 86400)
  hour := a.secondOfDay / 3600
  minute := a.secondOfDay / 60 % 60
  second := a.secondOfDay % 60 + a.nanos / 1000000000
  nanos := a.nanos % 1000000000

end Instant

/-- A year in at least four digits, with a sign unless it lies between 0 and 9999. -/
def yearText (year : Int) : List Char :=
  if 0 ≤ year ∧ year ≤ 9999 then Text.padded 4 year.toNat
  else (if year < 0 then '-' else '+') :: Text.padded 4 year.natAbs

namespace Date

/-- A date as `YYYY-MM-DD`. -/
def toChars (d : Date) : List Char :=
  yearText d.year ++ ['-'] ++ Text.padded 2 d.month ++ ['-'] ++ Text.padded 2 d.day

end Date

/-- An instant as `YYYY-MM-DD HH:MM`. -/
def Instant.minuteText (a : Instant) : String :=
  let t := a.civil
  String.ofList
    (t.date.toChars ++ [' '] ++ Text.padded 2 t.hour ++ [':'] ++ Text.padded 2 t.minute)

end LeaseKeeper
