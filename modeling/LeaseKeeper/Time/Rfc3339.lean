/-
Instants as RFC 3339 text.

* `Rfc3339.write` — the text in UTC, with as few of 0, 3, 6 or 9 digits of fraction as are
  exact; a year outside 0 to 9999 has a sign, and then the text is no RFC 3339 any more;
* `Rfc3339.read` — the instant of a text with any offset, and the first thing wrong with any
  other text.

Design notes: a text is read from left to right.  The date is checked once its day is read,
the time of day once its fraction is, and the minutes of the offset as they are read.  Whether
the offset stays below a day is checked last, when nothing is left of the text.
-/
import LeaseKeeper.Time.Instant
import LeaseKeeper.Text.Utf8

namespace LeaseKeeper.Rfc3339

inductive ReadError where
  | tooShort
  | invalidCharacter
  | outOfRange
  | trailingInput
  deriving DecidableEq, Repr

def ReadError.message : ReadError → String
  | .tooShort => "premature end of input"
  | .invalidCharacter => "input contains invalid characters"
  | .outOfRange => "input is out of range"
  | .trailingInput => "trailing input"

/-! ### Writing -/

/-- The fraction of a second: as few groups of three digits as are exact. -/
def fraction (nanos : Nat) : List Char :=
  if nanos = 0 then []
  else if nanos % 1000000 = 0 then '.' :: Text.padded 3 (nanos / 1000000)
  else if nanos % 1000 = 0 then '.' :: Text.padded 6 (nanos / 1000)
  else '.' :: Text.padded 9 nanos

def write (a : Instant) : List Char :=
  let t := a.civil
  t.date.toChars ++ ['T'] ++ Text.padded 2 t.hour ++ [':'] ++ Text.padded 2 t.minute ++ [':'] ++
    Text.padded 2 t.second ++ fraction t.nanos ++ ['Z']

/-! ### Reading -/

/-- Reads `n` digits onto the number `value`. -/
def digits : Nat → Nat → List Char → Except ReadError (Nat × List Char)
  | 0, value, s => .ok (value, s)
  | _ + 1, _, [] => .error .tooShort
  | n + 1, value, c :: s =>
    match Text.digit? c with
    | some d => digits n (10 * value + d) s
    | none => .error .invalidCharacter

def oneOf (allowed : List Char) : List Char → Except ReadError (List Char)
  | [] => .error .tooShort
  | c :: s => if c ∈ allowed then .ok s else .error .invalidCharacter

/-- Reads the year, month and day of a date that the calendar has. -/
def date (s : List Char) : Except ReadError (Date × List Char) := do
  let (year, s) ← digits 4 0 s
  let s ← oneOf ['-'] s
  let (month, s) ← digits 2 0 s
  let s ← oneOf ['-'] s
  let (day, s) ← digits 2 0 s
  let d : Date := ⟨year, month, day⟩
  if d.isValid then .ok (d, s) else .error .outOfRange

/-- The nanoseconds that the digits of a fraction stand for; digits after the ninth are
ignored. -/
def nanosOfDigits (ds : List Char) : Nat :=
  Nat.ofDigitChars 10 ((ds ++ List.replicate 9 '0').take 9) 0

/-- Reads a fraction of a second, if there is one. -/
def fractionNanos : List Char → Except ReadError (Nat × List Char)
  | '.' :: s =>
    match s.takeWhile Char.isDigit, s with
    | [], [] => .error .tooShort
    | [], _ :: _ => .error .invalidCharacter
    | ds, _ => .ok (nanosOfDigits ds, s.dropWhile Char.isDigit)
  | s => .ok (0, s)

/-- A time of day as it is written, with the second 60 for a leap second. -/
structure TimeOfDay where
  hour : Nat
  minute : Nat
  second : Nat
  nanos : Nat

/-- Whether the time occurs in a day; every minute may have a second 60. -/
def TimeOfDay.isValid (t : TimeOfDay) : Bool :=
  t.hour ≤ 23 && t.minute ≤ 59 && t.second ≤ 60

def timeOfDay (s : List Char) : Except ReadError (TimeOfDay × List Char) := do
  let (hour, s) ← digits 2 0 s
  let s ← oneOf [':'] s
  let (minute, s) ← digits 2 0 s
  let s ← oneOf [':'] s
  let (second, s) ← digits 2 0 s
  let (nanos, s) ← fractionNanos s
  let t : TimeOfDay := ⟨hour, minute, second, nanos⟩
  if t.isValid then .ok (t, s) else .error .outOfRange

/-- Reads two digits of an offset.  One character of a single byte is not enough to judge. -/
def offsetDigits : List Char → Except ReadError ((Nat × Nat) × List Char)
  | [] => .error .tooShort
  | [c] => .error (if c.utf8Size < 2 then .tooShort else .invalidCharacter)
  | c :: d :: s =>
    match Text.digit? c, Text.digit? d with
    | some high, some low => .ok ((high, low), s)
    | _, _ => .error .invalidCharacter

/-- Reads the minutes by which local time is ahead of UTC; the hours among them may be any. -/
def offsetMinutes : List Char → Except ReadError (Int × List Char)
  | [] => .error .tooShort
  | c :: s => do
    if c = 'Z' ∨ c = 'z' then return (0, s)
    if c ≠ '+' ∧ c ≠ '-' ∧ c ≠ '\u2212' then throw .invalidCharacter
    let ((tens, ones), s) ← offsetDigits s
    let hours := 10 * tens + ones
    let s ← oneOf [':'] s
    let ((tens, ones), s) ← offsetDigits s
    if 6 ≤ tens then throw .outOfRange
    let minutes : Int := 60 * hours + 10 * tens + ones
    return (if c = '+' then minutes else -minutes, s)

/-- The number of minutes that an offset stays below, in either direction. -/
def offsetLimit : Nat := 1440

/-- The instant of a local date and time of day at an offset in minutes. -/
def instant (d : Date) (t : TimeOfDay) (offset : Int) : Option Instant :=
  let minutes := d.dayNumber * 1440 + 60 * t.hour + t.minute - offset
  if t.second = 60 then Instant.make? (minutes * 60 + 59) (t.nanos + 1000000000)
  else Instant.make? (minutes * 60 + t.second) t.nanos

def read (s : List Char) : Except ReadError Instant := do
  if Text.Utf8.encodeSize s < 19 then throw .tooShort
  let (d, s) ← date s
  let s ← oneOf ['T', 't', ' '] s
  let (t, s) ← timeOfDay s
  let (offset, s) ← offsetMinutes s
  if s ≠ [] then throw .trailingInput
  if offsetLimit ≤ offset.natAbs then throw .outOfRange
  match instant d t offset with
  | some a => return a
  | none => throw .outOfRange

end LeaseKeeper.Rfc3339
