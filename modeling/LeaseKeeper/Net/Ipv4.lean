/-
IPv4 addresses.

* `Ipv4.ofText?` — reads four decimal octets between points, without leading zeros;
* `Ipv4.toChars` — writes them;
* `Ipv4.octets`, `Ipv4.ofOctets` — the four octets and the 32-bit number they make up.
-/
import LeaseKeeper.Text.Fields
import LeaseKeeper.Text.Digits

namespace LeaseKeeper

/-- An IPv4 address as its 32-bit number. -/
structure Ipv4 where
  bits : BitVec 32
  deriving DecidableEq, Repr

namespace Ipv4

/-- The address with the octets `a.b.c.d`. -/
def ofOctets (a b c d : UInt8) : Ipv4 :=
  ⟨a.toBitVec ++ b.toBitVec ++ c.toBitVec ++ d.toBitVec⟩

/-- The octet that begins `8 * place` bits from the right. -/
def octet (a : Ipv4) (place : Nat) : Nat := (a.bits.toNat >>> (8 * place)) % 256

/-- The four octets, the most significant first. -/
def octets (a : Ipv4) : List Nat := [a.octet 3, a.octet 2, a.octet 1, a.octet 0]

/-- A decimal number up to 255 in as few digits as possible. -/
def octet? (s : List Char) : Option UInt8 :=
  if s.head? = some '0' ∧ s ≠ ['0'] then none
  else
    match Text.number? s with
    | some n => if s.length ≤ 3 ∧ n ≤ 255 then some (UInt8.ofNat n) else none
    | none => none

def ofText? (s : List Char) : Option Ipv4 :=
  match (Text.fields (· == '.') s).mapM octet? with
  | some [a, b, c, d] => some (ofOctets a b c d)
  | _ => none

/-- The octets between points. -/
def toChars (a : Ipv4) : List Char :=
  List.intercalate ['.'] (a.octets.map Text.decimal)

def toText (a : Ipv4) : String := String.ofList a.toChars

end Ipv4

end LeaseKeeper
