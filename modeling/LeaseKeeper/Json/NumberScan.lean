/-
Number literals of JSON text.

* `number` — the number of a literal: an integer if it has neither fraction nor exponent and
  fits into 64 bits, else a double;
* `skipNumber` — what follows a literal whose number is not wanted.

Design notes: a double is computed as the digits that fit into 64 bits, as one double, times
or divided by one power of ten.  This is not always the double nearest to the literal, but
always within its neighbours; a product beyond the greatest double is a fault, a quotient
below the least one is zero.
-/
import LeaseKeeper.Json.Scan
import LeaseKeeper.Json.Value

namespace LeaseKeeper.Json

inductive Number where
  | integer (n : Int)
  | double (bits : UInt64)
  deriving DecidableEq

/-- The document that holds a number. -/
def Number.toValue : Number → Value
  | .integer n => .integer n
  | .double bits => .double bits

/-! ### The parts of a literal -/

def digitValue (b : UInt8) : Nat := b.toNat - '0'.toNat

/-- Puts digits after a number for as long as the result fits into 64 bits; returns the result
and how many digits it took in. -/
def appendDigits (n : Nat) : List UInt8 → Nat × Nat
  | [] => (n, 0)
  | b :: ds =>
    if 10 * n + digitValue b < 0x10000000000000000 then
      let (m, count) := appendDigits (10 * n + digitValue b) ds
      (m, count + 1)
    else (n, 0)

/-- Reads the digits before the point: a zero alone, or digits that begin with another. -/
def wholeDigits (atEnd : Fault) : List UInt8 → Except Fault (Scanned (List UInt8))
  | [] => .error atEnd
  | b :: s =>
    if b = byte '0' then
      match s with
      | [] => .ok ([b], [])
      | c :: _ => if isDigit c then .error .invalidNumber else .ok ([b], s)
    else if isDigit b then .ok (b :: s.takeWhile isDigit, s.dropWhile isDigit)
    else .error .invalidNumber

/-- Reads at least one digit; without one the fault tells whether the text ends. -/
def someDigits (atEnd : Fault) (s : List UInt8) : Except Fault (Scanned (List UInt8)) :=
  match s.takeWhile isDigit with
  | [] => .error (if s = [] then atEnd else .invalidNumber)
  | ds => .ok (ds, s.dropWhile isDigit)

/-- Reads the digits after a point, if there is a point. -/
def fractionDigits (atEnd : Fault) : List UInt8 → Except Fault (Scanned (Option (List UInt8)))
  | [] => .ok (none, [])
  | b :: s =>
    if b = byte '.' then (someDigits atEnd s).map fun (ds, s) => (some ds, s)
    else .ok (none, b :: s)

/-- Reads sign and digits of an exponent, if there is one. -/
def exponentDigits (atEnd : Fault) : List UInt8 → Except Fault (Scanned (Option (Bool × List UInt8)))
  | [] => .ok (none, [])
  | b :: s =>
    if b = byte 'e' ∨ b = byte 'E' then
      match s with
      | c :: rest =>
        if c = byte '+' ∨ c = byte '-' then
          (someDigits atEnd rest).map fun (ds, s) => (some (c == byte '-', ds), s)
        else (someDigits atEnd s).map fun (ds, s) => (some (false, ds), s)
      | [] => .error atEnd
    else .ok (none, b :: s)

/-- The digits of a literal after its sign. -/
structure Literal where
  whole : List UInt8
  fraction : Option (List UInt8)
  /-- Whether the exponent is negative, and its digits. -/
  exponent : Option (Bool × List UInt8)

/-- Reads a literal after its sign. -/
def literal (atEnd : Fault) (s : List UInt8) : Except Fault (Scanned Literal) := do
  let (whole, s) ← wholeDigits atEnd s
  let (fraction, s) ← fractionDigits atEnd s
  let (exponent, s) ← exponentDigits atEnd s
  return (⟨whole, fraction, exponent⟩, s)

/-! ### The number of a literal -/

/-- `10^n` as a double. -/
def powerOfTen (n : Nat) : Float := Float.ofScientific 1 false n

/-- `f · 10^k`, by one multiplication or division for each 308 of the exponent. -/
def scaled (f : Float) (k : Int) : Except Fault Float :=
  if 0 ≤ k ∧ k ≤ 308 then
    let product := f * powerOfTen k.toNat
    if product.isInf then .error .numberOutOfRange else .ok product
  else if k < 0 ∧ -308 ≤ k then .ok (f / powerOfTen (-k).toNat)
  else if f == 0.0 then .ok f
  else if 0 ≤ k then .error .numberOutOfRange
  else scaled (f / powerOfTen 308) (k + 308)
termination_by (-k).toNat

/-- The greatest exponent that is told from an infinite one. -/
def greatestExponent : Nat := 2147483647

def digitsValue (ds : List UInt8) : Nat := ds.foldl (fun n b => 10 * n + digitValue b) 0

/-- The double of a literal. -/
def Literal.double (l : Literal) : Except Fault Float :=
  let (whole, taken) := appendDigits 0 l.whole
  let (significand, after) := appendDigits whole (l.fraction.getD [])
  let k : Int := (l.whole.length - taken : Nat) - (after : Int)
  let f := significand.toUInt64.toFloat
  match l.exponent with
  | none => scaled f k
  | some (negative, ds) =>
    let e := digitsValue ds
    if greatestExponent < e then
      if significand = 0 ∨ negative then .ok 0.0 else .error .numberOutOfRange
    else scaled f (if negative then k - e else k + e)

/-- The number of a literal with its sign. -/
def Literal.number (negative : Bool) (l : Literal) : Except Fault Number :=
  let (n, taken) := appendDigits 0 l.whole
  let isWhole := taken = l.whole.length ∧ l.fraction.isNone ∧ l.exponent.isNone
  if isWhole ∧ ¬negative then .ok (.integer n)
  else if isWhole ∧ 0 < n ∧ n ≤ 0x8000000000000000 then .ok (.integer (-n))
  else l.double.map fun f => .double (if negative then -f else f).toBits

/-- Reads a number after its sign. -/
def number (negative : Bool) (s : List UInt8) : Except Fault (Scanned Number) := do
  let (l, s) ← literal .endInValue s
  let n ← l.number negative
  return (n, s)

/-- What follows a number, after its sign. -/
def skipNumber (s : List UInt8) : Except Fault (List UInt8) :=
  (literal .invalidNumber s).map (·.2)

end LeaseKeeper.Json
