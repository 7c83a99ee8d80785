/-
The text of a delay of whole milliseconds.

* `Delay.toText` — a delay of at least a second is written in seconds, with as many of the
  three decimals as it needs; a shorter one in milliseconds; none at all as `0ns`.
-/
import LeaseKeeper.Text.Digits

namespace LeaseKeeper.Delay

/-- A text without the zeros at its end. -/
def dropFinalZeros (s : List Char) : List Char :=
  (s.reverse.dropWhile (· == '0')).reverse

/-- The decimals of a fraction of a second, with the point in front of them if there are any. -/
def fraction (ms : Nat) : List Char :=
  if ms = 0 then [] else '.' :: dropFinalZeros (Text.padded 3 ms)

/-- The text of a delay in milliseconds. -/
def toChars (ms : Nat) : List Char :=
  if ms = 0 then ['0', 'n', 's']
  else if ms < 1000 then Text.decimal ms ++ ['m', 's']
  else Text.decimal (ms / 1000) ++ fraction (ms % 1000) ++ ['s']

def toText (ms : Nat) : String := String.ofList (toChars ms)

end LeaseKeeper.Delay
