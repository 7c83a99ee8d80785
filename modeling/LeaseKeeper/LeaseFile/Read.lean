/-
Leases from the content of a lease file.

A file is a list of records.  A record is an object with the fields of a lease in any order,
each at most once, and any other fields; or a list of its values in the order of the fields,
of which the last ones may be missing.  The address and the hardware address are required.

* `decode` — the leases of a file, or the first thing that is wrong with it.

Design notes: the text is read once, from left to right, and what a value has to be is known
before it is read.  `Draft` holds the fields of a record that have been read.
-/
import LeaseKeeper.Json.Skip
import LeaseKeeper.LeaseFile.Write

namespace LeaseKeeper.LeaseFile

open Json (Scanned byte skipSpace isDigit)

/-- Takes a fault of the text for a refusal of the file. -/
def ofText {α : Type} : Except Json.Fault α → Except Error α
  | .ok a => .ok a
  | .error fault => .error (.text fault)

/-! ### Values of a known kind -/

/-- Reads the value at the front to say that it is not the wanted one. -/
def refuse (wanted : Wanted) : List UInt8 → Error
  | [] => .text .valueExpected
  | b :: s =>
    let found : Except Json.Fault Found :=
      if b = byte 'n' then (Json.word ['u', 'l', 'l'] s).map fun _ => .null
      else if b = byte 't' then (Json.word ['r', 'u', 'e'] s).map fun _ => .boolean true
      else if b = byte 'f' then (Json.word ['a', 'l', 's', 'e'] s).map fun _ => .boolean false
      else if b = byte '-' then (Json.number true s).map fun (n, _) => .number n
      else if isDigit b then (Json.number false (b :: s)).map fun (n, _) => .number n
      else if b = byte '"' then (Json.string s).map fun (t, _) => .string t
      else if b = byte '[' then .ok .list
      else if b = byte '\x7b' then .ok .object
      else .error .valueExpected
    match found with
    | .ok found => .content (.wrongType found wanted)
    | .error fault => .text fault

def text? (wanted : Wanted) (s : List UInt8) : Except Error (Scanned String) :=
  match skipSpace s with
  | [] => .error (.text .endInValue)
  | b :: s => if b = byte '"' then ofText (Json.string s) else .error (refuse wanted (b :: s))

/-- The ordinal that a number stands for. -/
def ordinal : Json.Number → Except Misfit Int64
  | .integer n =>
    if n < 0x8000000000000000 then .ok (Int64.ofInt n) else .error (.integerTooLarge n.toNat)
  | .double bits => .error (.wrongType (.number (.double bits)) .integer)

/-- Takes a misfit for a refusal of the file. -/
def ofContent {α : Type} : Except Misfit α → Except Error α
  | .ok a => .ok a
  | .error misfit => .error (.content misfit)

def integer (s : List UInt8) : Except Error (Scanned Int64) :=
  match skipSpace s with
  | [] => .error (.text .endInValue)
  | b :: s =>
    if b = byte '-' then do
      let (n, s) ← ofText (Json.number true s)
      return (← ofContent (ordinal n), s)
    else if isDigit b then do
      let (n, s) ← ofText (Json.number false (b :: s))
      return (← ofContent (ordinal n), s)
    else .error (refuse .integer (b :: s))

/-- The expiry that a text stands for. -/
def expiryOfText (s : String) : Except Misfit (Option Instant) :=
  match Rfc3339.read s.toList with
  | .ok t => .ok (if t.seconds ≤ zeroTime then none else some t)
  | .error e => .error (.badExpiry e)

/-- The address that a text stands for. -/
def addressOfText (s : String) : Except Misfit Ipv4 :=
  match Ipv4.ofText? s.toList with
  | some a => .ok a
  | none => .error .badAddress

def hardwareAddressOfText (s : String) : Except Misfit HardwareAddress :=
  match HardwareAddress.parse s with
  | .ok a => .ok a
  | .error e => .error (.badHardwareAddress e)

/-! ### Records -/

/-- The fields of a record that have been read. -/
structure Draft where
  num : Option Int64
  addr : Option Ipv4
  hardwareAddr : Option HardwareAddress
  hostname : Option String
  hostnameOverride : Option String
  expiry : Option (Option Instant)

namespace Draft

def empty : Draft := ⟨none, none, none, none, none, none⟩

def has (d : Draft) : Field → Bool
  | .num => d.num.isSome
  | .addr => d.addr.isSome
  | .hardwareAddr => d.hardwareAddr.isSome
  | .hostname => d.hostname.isSome
  | .hostnameOverride => d.hostnameOverride.isSome
  | .expiry => d.expiry.isSome

def readField (d : Draft) (f : Field) (s : List UInt8) : Except Error (Scanned Draft) :=
  match f with
  | .num => do
    let (n, s) ← integer s
    return ({ d with num := some n }, s)
  | .addr => do
    let (t, s) ← text? .ipv4 s
    return ({ d with addr := some (← ofContent (addressOfText t)) }, s)
  | .hardwareAddr => do
    let (t, s) ← text? .text s
    return ({ d with hardwareAddr := some (← ofContent (hardwareAddressOfText t)) }, s)
  | .hostname => do
    let (t, s) ← text? .text s
    return ({ d with hostname := some t }, s)
  | .hostnameOverride => do
    let (t, s) ← text? .text s
    return ({ d with hostnameOverride := some t }, s)
  | .expiry => do
    let (t, s) ← text? .text s
    return ({ d with expiry := some (← ofContent (expiryOfText t)) }, s)

/-- The lease of a record to which nothing is added; required fields are looked for in their
order. -/
def finish (d : Draft) : Except Misfit Lease :=
  match d.addr, d.hardwareAddr with
  | some addr, some hardwareAddr =>
    .ok {
      ordinal := d.num.getD 0
      address := addr
      hardwareAddress := hardwareAddr
      hostname := d.hostname.getD ""
      hostnameOverride := d.hostnameOverride.getD ""
      expiry := d.expiry.getD none }
  | none, _ => .error (.missingField .addr)
  | some _, none => .error (.missingField .hardwareAddr)

end Draft

/-- Reads the fields of an object that are left, and its closing brace, for no more than
`fuel` fields. -/
def fieldsWithin : Nat → Draft → Bool → List UInt8 → Except Error (Scanned Draft)
  | 0, _, _, _ => .error (.text .endInObject)
  | fuel + 1, d, isFirst, s => do
    match ← ofText (Json.nextKey isFirst s) with
    | (none, s) => return (d, s)
    | (some key, s) =>
      match Field.ofKey? key with
      | none =>
        let s ← ofText (Json.colon s)
        fieldsWithin fuel d false (← ofText (Json.skipValue s))
      | some f =>
        if d.has f then throw (.content (.duplicateField f))
        let s ← ofText (Json.colon s)
        let (d, s) ← d.readField f s
        fieldsWithin fuel d false s

/-- Reads the values of a list for the given fields; `count` values have been read.  Once the
list ends, a required field must not be left. -/
def elements (d : Draft) (count : Nat) : List Field → List UInt8 → Except Error (Scanned Draft)
  | [], s => .ok (d, s)
  | f :: fs, s => do
    match ← ofText (Json.nextElement (count == 0) s) with
    | some s =>
      let (d, s) ← d.readField f s
      elements d (count + 1) fs s
    | none =>
      match (f :: fs).findIdx? Field.isRequired with
      | some i => throw (.content (.tooFewElements (count + i)))
      | none => return (d, s)

/-- Reads a record of either form. -/
def record? (s : List UInt8) : Except Error (Scanned Lease) :=
  match skipSpace s with
  | [] => .error (.text .endInValue)
  | b :: s =>
    if b = byte '\x7b' then do
      let (d, s) ← fieldsWithin (s.length + 1) .empty true s
      return (← ofContent d.finish, s)
    else if b = byte '[' then do
      let (d, s) ← elements .empty 0 Field.all s
      let l ← ofContent d.finish
      return (l, ← ofText (Json.endList s))
    else .error (refuse .record (b :: s))

/-! ### Files -/

/-- Reads the records of a list that are left, and its closing bracket, for no more than
`fuel` records. -/
def recordsWithin : Nat → Bool → List UInt8 → Except Error (Scanned (List Lease))
  | 0, _, _ => .error (.text .endInList)
  | fuel + 1, isFirst, s => do
    match ← ofText (Json.nextElement isFirst s) with
    | none => return ([], ← ofText (Json.endList s))
    | some s =>
      let (l, s) ← record? s
      let (ls, s) ← recordsWithin fuel false s
      return (l :: ls, s)

/-- The leases of a file. -/
def decode (bytes : List UInt8) : Except Error LeaseSet :=
  match skipSpace bytes with
  | [] => .error (.text .endInValue)
  | b :: s => do
    if b ≠ byte '[' then throw (refuse .records (b :: s))
    let (ls, s) ← recordsWithin (s.length + 1) true s
    ofText (Json.endDocument s)
    return ls

end LeaseKeeper.LeaseFile
