/-
Digits and the numbers they stand for.

* `digit?`, `hexDigit?` — the value of a decimal or hexadecimal digit, either case;
* `number? s` — the value of a non-empty sequence of decimal digits;
* `decimal n`, `padded width n` — the digits of `n`, as few as possible or at least `width`;
* `hexPair`, `hexBytes?` — bytes as pairs of hexadecimal digits;
* `number?_decimal`, `hexDigit?_hexDigit` — what is written reads back.
-/

namespace LeaseKeeper.Text

def digit? (c : Char) : Option Nat :=
  if '0' ≤ c ∧ c ≤ '9' then some (c.toNat - '0'.toNat) else none

/-- The value of a hexadecimal digit in either case. -/
def hexDigit? (c : Char) : Option Nat :=
  if '0' ≤ c ∧ c ≤ '9' then some (c.toNat - '0'.toNat)
  else if 'a' ≤ c ∧ c ≤ 'f' then some (c.toNat - 'a'.toNat + 10)
  else if 'A' ≤ c ∧ c ≤ 'F' then some (c.toNat - 'A'.toNat + 10)
  else none

def digit (n : Nat) : Char := Char.ofNat ('0'.toNat + n)

/-- The lower case hexadecimal digit of a number below sixteen. -/
def hexDigit (n : Nat) : Char :=
  if n < 10 then digit n else Char.ofNat ('a'.toNat + (n - 10))

/-- A byte as two lower case hexadecimal digits. -/
def hexPair (b : UInt8) : List Char := [hexDigit (b.toNat / 16), hexDigit (b.toNat % 16)]

/-- The bytes that pairs of hexadecimal digits stand for. -/
def hexBytes? : List Char → Option (List UInt8)
  | [] => some []
  | [_] => none
  | c :: d :: s => do
    let high ← hexDigit? c
    let low ← hexDigit? d
    return UInt8.ofNat (16 * high + low) :: (← hexBytes? s)

/-- The value of a sequence of decimal digits, if it is one and not empty. -/
def number? (s : List Char) : Option Nat :=
  if s ≠ [] ∧ s.all Char.isDigit then some (Nat.ofDigitChars 10 s 0) else none

/-- The decimal digits of `n`, without leading zeros. -/
def decimal (n : Nat) : List Char := Nat.toDigits 10 n

/-- The decimal digits of `n`, with leading zeros up to `width` digits. -/
def padded (width n : Nat) : List Char :=
  List.replicate (width - (decimal n).length) '0' ++ decimal n

/-- The decimal digits of an integer, after a minus sign if it is negative. -/
def integer : Int → List Char
  | .ofNat n => decimal n
  | .negSucc n => '-' :: decimal (n + 1)

theorem number?_decimal (n : Nat) : number? (decimal n) = some n := by
  have hall : (decimal n).all Char.isDigit = true :=
    List.all_eq_true.mpr fun c hc => Nat.isDigit_of_mem_toDigits (by decide) (by decide) hc
  rw [number?, if_pos ⟨Nat.toDigits_ne_nil, hall⟩, decimal, Nat.ofDigitChars_ten_toDigits]

theorem hexDigit?_hexDigit {n : Nat} (h : n < 16) : hexDigit? (hexDigit n) = some n := by
  have key : ∀ n : Fin 16, hexDigit? (hexDigit n) = some n.val := by decide
  exact key ⟨n, h⟩

end LeaseKeeper.Text
