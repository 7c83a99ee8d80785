/-
Why the content of a lease file is refused.

* `Error.message`, `Error.category` — the wording and the kind of a refusal: the text is no
  JSON document, or the document holds something other than leases.
-/
import LeaseKeeper.HardwareAddress
import LeaseKeeper.Json.NumberScan
import LeaseKeeper.Time.Rfc3339

namespace LeaseKeeper.LeaseFile

/-- The fields of a lease record, in the order in which they are written. -/
inductive Field where
  | num
  | addr
  | hardwareAddr
  | hostname
  | hostnameOverride
  | expiry
  deriving DecidableEq, Repr

namespace Field

def all : List Field := [.num, .addr, .hardwareAddr, .hostname, .hostnameOverride, .expiry]

def key : Field → String
  | .num => "num"
  | .addr => "addr"
  | .hardwareAddr => "hardware_addr"
  | .hostname => "hostname"
  | .hostnameOverride => "hostname_override"
  | .expiry => "expiry"

def ofKey? (k : String) : Option Field := all.find? fun f => f.key == k

/-- Whether every record has to have the field. -/
def isRequired : Field → Bool
  | .addr | .hardwareAddr => true
  | _ => false

end Field

/-- A value that stands where another kind of value is wanted. -/
inductive Found where
  | null
  | boolean (b : Bool)
  | number (n : Json.Number)
  | string (s : String)
  | list
  | object

/-- The kind of value that is wanted. -/
inductive Wanted where
  | integer
  | text
  | ipv4
  | record
  | records
  deriving DecidableEq

/-- What a document holds other than leases. -/
inductive Misfit where
  | wrongType (found : Found) (wanted : Wanted)
  | integerTooLarge (n : Nat)
  | missingField (f : Field)
  | duplicateField (f : Field)
  | tooFewElements (count : Nat)
  | badAddress
  | badHardwareAddress (e : HardwareAddress.ParseError)
  | badExpiry (e : Rfc3339.ReadError)

/-- Why the content of a lease file is refused. -/
inductive Error where
  | text (fault : Json.Fault)
  | content (misfit : Misfit)

def Found.message : Found → String
  | .null => "null"
  | .boolean b => "boolean `" ++ (if b then "true" else "false") ++ "`"
  | .number (.integer n) => "integer `" ++ String.ofList (Text.integer n) ++ "`"
  | .number (.double bits) => "floating point `" ++ Json.doubleFormat.text bits ++ "`"
  | .string s => "string " ++ Text.quoted s
  | .list => "sequence"
  | .object => "map"

def Wanted.message : Wanted → String
  | .integer => "i64"
  | .text => "a string"
  | .ipv4 => "IPv4 address"
  | .record => "struct LeaseDto"
  | .records => "a sequence"

def Misfit.message : Misfit → String
  | .wrongType found wanted =>
    "invalid type: " ++ found.message ++ ", expected " ++ wanted.message
  | .integerTooLarge n =>
    "invalid value: integer `" ++ String.ofList (Text.decimal n) ++ "`, expected i64"
  | .missingField f => "missing field `" ++ f.key ++ "`"
  | .duplicateField f => "duplicate field `" ++ f.key ++ "`"
  | .tooFewElements count =>
    "invalid length " ++ String.ofList (Text.decimal count) ++
      ", expected struct LeaseDto with 6 elements"
  | .badAddress => "invalid IPv4 address syntax"
  | .badHardwareAddress e => e.message
  | .badExpiry e => e.message

namespace Error

def message : Error → String
  | .text fault => fault.message
  | .content misfit => misfit.message

def category : Error → Json.Category
  | .text fault => fault.category
  | .content _ => .unsuitable

end Error

end LeaseKeeper.LeaseFile
