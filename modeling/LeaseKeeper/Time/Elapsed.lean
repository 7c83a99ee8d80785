/-
The text of an elapsed time of at most a day.

* `Elapsed.components` — whole days, hours, minutes and seconds, without those that are zero;
* `Elapsed.toText` — the components with their units between blanks, or `0s`.
-/
import LeaseKeeper.Text.Digits

namespace LeaseKeeper.Elapsed

inductive Unit where
  | day
  | hour
  | minute
  | second
  deriving DecidableEq, Repr

def Unit.seconds : Unit → Nat
  | .day => 86400
  | .hour => 3600
  | .minute => 60
  | .second => 1

/-- The text of a unit after its count. -/
def Unit.name (count : Nat) : Unit → List Char
  | .day => if count = 1 then ['d', 'a', 'y'] else ['d', 'a', 'y', 's']
  | .hour => ['h']
  | .minute => ['m']
  | .second => ['s']

/-- The counts of the units that make up a number of seconds, the largest unit first. -/
def components (seconds : Nat) : List (Nat × Unit) :=
  [(seconds / 86400, .day), (seconds / 3600 % 24, .hour), (seconds / 60 % 60, .minute),
    (seconds % 60, .second)].filter fun (count, _) => count ≠ 0

def componentText : Nat × Unit → List Char
  | (count, unit) => Text.decimal count ++ unit.name count

def toChars (seconds : Nat) : List Char :=
  if seconds = 0 then ['0', 's']
  else List.intercalate [' '] ((components seconds).map componentText)

end LeaseKeeper.Elapsed
