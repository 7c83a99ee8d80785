/-
Decimal text of a double-precision number, with the fewest digits that read back as it.

A finite double is `m · 2^q`; the numbers that are read as it form an interval around it,
whose ends belong to it if `m` is even.

* `shortest` — digits `d` and exponent `k` such that `d · 10^k` lies in the interval, with as
  few digits as possible and then as near as possible to the double;
* `DoubleFormat.text` — the text, positional for moderate exponents.

Design notes: for 1, 2, … 17 digits the two neighbours of the double on that decimal grid are
tried.  All arithmetic is exact.
-/
import LeaseKeeper.Text.Digits

namespace LeaseKeeper.Decimal

/-- A positive double and the interval that is read as it, over a common denominator. -/
structure Rounding where
  low : Nat
  value : Nat
  high : Nat
  denominator : Nat
  endsIncluded : Bool

/-- The interval of the double with the given exponent field and fraction field. -/
def Rounding.ofFields (exponent fraction : Nat) : Rounding :=
  let mantissa := if exponent = 0 then fraction else fraction + 0x10000000000000
  -- The neighbour below a power of two is half as far away as the one above.
  let below := if fraction = 0 ∧ exponent > 1 then 1 else 2
  -- The double is `4 · mantissa · 2^(power - 1077)`.
  let power := if exponent = 0 then 1 else exponent
  let up := if power ≥ 1077 then Nat.pow 2 (power - 1077) else 1
  { low := (4 * mantissa - below) * up
    value := 4 * mantissa * up
    high := (4 * mantissa + 2) * up
    denominator := Nat.pow 2 (1077 - power)
    endsIncluded := mantissa % 2 = 0 }

/-- The interval and the value in units of `10^k`. -/
def Rounding.scale (r : Rounding) (k : Int) : Rounding :=
  if 0 ≤ k then { r with denominator := r.denominator * Nat.pow 10 k.toNat }
  else
    let up := Nat.pow 10 (-k).toNat
    { r with low := r.low * up, value := r.value * up, high := r.high * up }

def Rounding.contains (r : Rounding) (n : Nat) : Bool :=
  let x := n * r.denominator
  if r.endsIncluded then r.low ≤ x && x ≤ r.high else r.low < x && x < r.high

/-- The whole number of the interval that is nearest to the value, the even one of two equally
near; only the value's two neighbours are looked at. -/
def Rounding.nearest? (r : Rounding) : Option Nat :=
  let n := r.value / r.denominator
  let below := r.value - n * r.denominator
  let above := (n + 1) * r.denominator - r.value
  match r.contains n, r.contains (n + 1) with
  | true, true => some (if below < above ∨ (below = above ∧ n % 2 = 0) then n else n + 1)
  | true, false => some n
  | false, true => some (n + 1)
  | false, false => none

/-- The exponent of the value's first decimal digit. -/
def Rounding.leadingExponent (r : Rounding) : Int :=
  (Text.decimal (r.value * Nat.pow 10 400 / r.denominator)).length - 401

/-- Digits and exponent of the first grid that has a number of the interval, trying `tries`
grids of `count` digits and more. -/
def Rounding.search (r : Rounding) : Nat → Nat → Nat × Int
  | 0, _ => (0, 0)
  | tries + 1, count =>
    let k := r.leadingExponent - (count - 1 : Nat)
    match (r.scale k).nearest? with
    | some n => (n, k)
    | none => r.search tries (count + 1)

def withoutZeros (n : Nat) : List Char × Nat :=
  let ds := Text.decimal n
  let kept := (ds.reverse.dropWhile (· == '0')).reverse
  (kept, ds.length - kept.length)

/-- The shortest decimal that is read as the positive double with the given fields, as digits
and an exponent of ten for the last of them. -/
def shortest (exponent fraction : Nat) : List Char × Int :=
  let (n, k) := (Rounding.ofFields exponent fraction).search 17 1
  let (ds, zeros) := withoutZeros n
  (ds, k + zeros)

/-- How a double is written: the exponents of the first digit for which it is positional. -/
structure DoubleFormat where
  leastPositional : Int
  greatestPositional : Int

/-- Digits with an exponent of ten for the last of them, in full. -/
def positional (ds : List Char) (k : Int) : List Char :=
  let point : Int := ds.length + k
  if 0 ≤ k then ds ++ List.replicate k.toNat '0' ++ ['.', '0']
  else if 0 < point then ds.take point.toNat ++ ['.'] ++ ds.drop point.toNat
  else ['0', '.'] ++ List.replicate (-point).toNat '0' ++ ds

/-- Digits with an exponent of ten for the first of them. -/
def scientific (ds : List Char) (exponent : Int) : List Char :=
  ds.take 1 ++ (if 1 < ds.length then '.' :: ds.drop 1 else []) ++ ['e'] ++
    (if exponent < 0 then ['-'] else ['+']) ++ Text.decimal exponent.natAbs

/-- The text of the finite double with the given bits. -/
def DoubleFormat.text (f : DoubleFormat) (bits : UInt64) : String :=
  let n := bits.toNat
  let sign := if n ≥ 0x8000000000000000 then ['-'] else []
  let exponent := n / 0x10000000000000 % 2048
  let fraction := n % 0x10000000000000
  if exponent = 0 ∧ fraction = 0 then String.ofList (sign ++ ['0', '.', '0'])
  else
    let (ds, k) := shortest exponent fraction
    let first : Int := ds.length + k - 1
    String.ofList <| sign ++
      if f.leastPositional ≤ first ∧ first ≤ f.greatestPositional then positional ds k
      else scientific ds first

end LeaseKeeper.Decimal
