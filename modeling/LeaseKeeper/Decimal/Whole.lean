/-
The text of a whole number that is kept as a double.

* `nearestDouble n` — the fields of the double nearest to a positive whole number;
* `wholeText` — the fewest digits that read back as that double, written in full.
-/
import LeaseKeeper.Decimal.Shortest

namespace LeaseKeeper.Decimal

/-- `n / 2^shift` to the nearest whole number, an even one if two are equally near. -/
def halvedEven (n shift : Nat) : Nat :=
  let q := n >>> shift
  let rest := n % Nat.pow 2 shift
  let half := Nat.pow 2 shift / 2
  if half < rest ∨ (rest = half ∧ q % 2 = 1) then q + 1 else q

/-- The exponent field and the fraction field of the double nearest to a positive number. -/
def nearestDouble (n : Nat) : Nat × Nat :=
  let top := Nat.log2 n
  let mantissa := if top ≤ 52 then n * Nat.pow 2 (52 - top) else halvedEven n (top - 52)
  if mantissa = 0x20000000000000 then (1023 + top + 1, 0) else (1023 + top, mantissa - 0x10000000000000)

def wholeDigits (n : Nat) : List Char :=
  if n < 0x20000000000000 then Text.decimal n
  else
    let (exponent, fraction) := nearestDouble n
    let (ds, k) := shortest exponent fraction
    ds ++ List.replicate k.toNat '0'

/-- The text of a whole number as a double, after a minus sign if it is negative. -/
def wholeText : Int → List Char
  | .ofNat n => wholeDigits n
  | .negSucc n => '-' :: wholeDigits (n + 1)

end LeaseKeeper.Decimal
