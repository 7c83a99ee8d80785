/-
The content of a lease file.

* `document` — the leases of a set as a JSON document: a list of records;
* `encode` — the bytes of the file.

A static lease has the expiry `0001-01-01T00:00:00Z`, the zero time.
-/
import LeaseKeeper.Json.Value
import LeaseKeeper.Lease
import LeaseKeeper.LeaseFile.Error

namespace LeaseKeeper.LeaseFile

/-- The expiry of a static lease: no instant up to it, in whole seconds, is one of a dynamic
lease. -/
def zeroTime : Int := -62135596800

def expiryText : Option Instant → List Char
  | none => Rfc3339.write (.ofSeconds zeroTime)
  | some t => Rfc3339.write t

def record (l : Lease) : Json.Value :=
  .object [
    (Field.num.key, .integer l.ordinal.toInt),
    (Field.addr.key, .string l.address.toText),
    (Field.hardwareAddr.key, .string l.hardwareAddress.toText),
    (Field.hostname.key, .string l.hostname),
    (Field.hostnameOverride.key, .string l.hostnameOverride),
    (Field.expiry.key, .string (String.ofList (expiryText l.expiry)))]

/-- The leases of a set as a document. -/
def document (s : LeaseSet) : Json.Value := .array (s.map record)

def text (s : LeaseSet) : List Char := (document s).writeFile

def encode (s : LeaseSet) : List UInt8 := Text.Utf8.encode (text s)

end LeaseKeeper.LeaseFile
