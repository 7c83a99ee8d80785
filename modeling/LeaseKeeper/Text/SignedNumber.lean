/-
Whole numbers of 64 bits, with or without a sign, as text.

* `boundedNumber` — the number that digits stand for, up to a limit;
* `signedNumber` — the number that a text stands for, or the first thing wrong with it from
  left to right.
-/
import LeaseKeeper.Text.Digits

namespace LeaseKeeper.Text

/-- Why a text is not a number. -/
inductive NumberFault where
  | empty
  | notADigit
  | tooLarge
  | tooSmall
  deriving DecidableEq, Repr

def NumberFault.message : NumberFault → String
  | .empty => "cannot parse integer from empty string"
  | .notADigit => "invalid digit found in string"
  | .tooLarge => "number too large to fit in target type"
  | .tooSmall => "number too small to fit in target type"

/-- The number that digits stand for after those that stand for `n`, if it is at most
`limit`. -/
def boundedNumber (limit : Nat) (beyond : NumberFault) : List Char → Nat → Except NumberFault Nat
  | [], n => .ok n
  | c :: s, n =>
    match digit? c with
    | none => .error .notADigit
    | some d =>
      if 10 * n + d ≤ limit then boundedNumber limit beyond s (10 * n + d) else .error beyond

/-- The number of 64 bits that a text stands for. -/
def signedNumber : List Char → Except NumberFault Int
  | [] => .error .empty
  | ['+'] | ['-'] => .error .notADigit
  | '+' :: s => (boundedNumber 0x7FFFFFFFFFFFFFFF .tooLarge s 0).map Int.ofNat
  | '-' :: s => (boundedNumber 0x8000000000000000 .tooSmall s 0).map fun (n : Nat) => -(n : Int)
  | s => (boundedNumber 0x7FFFFFFFFFFFFFFF .tooLarge s 0).map Int.ofNat

end LeaseKeeper.Text
