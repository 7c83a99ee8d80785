/-
Hardware addresses: six octets, of which the first three name the vendor.

* `HardwareAddress.parse` — reads six pairs of hexadecimal digits between colons or dashes;
* `HardwareAddress.toText` — writes them in lower case between colons.

Design notes: a pair is read as a number of at most eight bits in base sixteen, and such a
number may carry a plus sign: `+f` is 15.
-/
import LeaseKeeper.Text.Fields
import LeaseKeeper.Text.Digits
import LeaseKeeper.Text.Quoted

namespace LeaseKeeper

/-- Three octets: the vendor's half of a hardware address, or the half that the vendor
assigns. -/
structure OctetTriple where
  first : UInt8
  second : UInt8
  third : UInt8
  deriving DecidableEq, Repr

structure HardwareAddress where
  vendor : OctetTriple
  device : OctetTriple
  deriving DecidableEq, Repr

namespace OctetTriple

def octets (t : OctetTriple) : List UInt8 := [t.first, t.second, t.third]

end OctetTriple

namespace HardwareAddress

/-- The text is not a hardware address. -/
structure ParseError where
  text : String
  deriving DecidableEq, Repr

def ParseError.message (e : ParseError) : String :=
  "invalid hardware address " ++ Text.quoted e.text

def octets (a : HardwareAddress) : List UInt8 := a.vendor.octets ++ a.device.octets

/-- Whether `c` stands between two octets. -/
def isSeparator (c : Char) : Bool := c == ':' || c == '-'

/-- The octet that two characters stand for: two hexadecimal digits, or a plus sign and one. -/
def octet? : List Char → Option UInt8
  | ['+', low] => (Text.hexDigit? low).map UInt8.ofNat
  | [high, low] =>
    match Text.hexDigit? high, Text.hexDigit? low with
    | some h, some l => some (UInt8.ofNat (16 * h + l))
    | _, _ => none
  | _ => none

/-- The address that a text stands for. -/
def ofText? (text : List Char) : Option HardwareAddress :=
  match (Text.fields isSeparator text).mapM octet? with
  | some [a, b, c, d, e, f] => some ⟨⟨a, b, c⟩, ⟨d, e, f⟩⟩
  | _ => none

def parse (text : String) : Except ParseError HardwareAddress :=
  match ofText? text.toList with
  | some a => .ok a
  | none => .error ⟨text⟩

/-- The octets as pairs of digits between colons. -/
def toChars (a : HardwareAddress) : List Char :=
  List.intercalate [':'] (a.octets.map Text.hexPair)

def toText (a : HardwareAddress) : String := String.ofList a.toChars

end HardwareAddress

end LeaseKeeper
