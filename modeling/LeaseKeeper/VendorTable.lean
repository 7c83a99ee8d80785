/-
Vendor tables: who owns the first three octets of a hardware address.

A line assigns three octets if it has the form `XX-XX-XX (hex) vendor` or
`XXXXXX (base 16) vendor`; all other lines are ignored.

* `VendorTable.ofBytes` — the table of a file, whose text may be damaged;
* `VendorTable.find?` — the vendor of an address; of several assignments the first counts;
* `VendorTable.size` — the number of assigned octet triples;
* `VendorTable.load`, `VendorTable.loadElseEmpty` — the table of a file by its path.
-/
import LeaseKeeper.FileSystem.Operations
import LeaseKeeper.HardwareAddress
import LeaseKeeper.Text.Blank
import LeaseKeeper.Text.Utf8

namespace LeaseKeeper

/-- The vendors of octet triples, in the order of their assignment. -/
structure VendorTable where
  entries : List (OctetTriple × String)

namespace VendorTable

def empty : VendorTable := ⟨[]⟩

/-- The marker of the form with dashes. -/
def dashedMarker : List Char := ['(', 'h', 'e', 'x', ')']

/-- The marker of the form without dashes. -/
def plainMarker : List Char := ['(', 'b', 'a', 's', 'e', ' ', '1', '6', ')']

/-- The line's text before and after its marker; the dashed form's marker is looked for
first, anywhere in the line. -/
def atMarker? (line : List Char) : Option (List Char × List Char) :=
  (Text.cut? dashedMarker line).or (Text.cut? plainMarker line)

/-- Three pairs of hexadecimal digits, between any number of dashes. -/
def triple? (s : List Char) : Option OctetTriple :=
  match (s.filter (· ≠ '-')).mapM Text.hexDigit? with
  | some [a, b, c, d, e, f] =>
    some ⟨UInt8.ofNat (16 * a + b), UInt8.ofNat (16 * c + d), UInt8.ofNat (16 * e + f)⟩
  | _ => none

/-- The assignment that a line makes. -/
def assignment? (line : List Char) : Option (OctetTriple × String) := do
  let (octets, vendor) ← atMarker? line
  let triple ← triple? (Text.trim octets)
  let vendor := Text.trim vendor
  if vendor = [] then none else some (triple, String.ofList vendor)

/-- The vendor of an octet triple. -/
def vendorOf? (t : VendorTable) (triple : OctetTriple) : Option String :=
  (t.entries.find? fun entry => entry.1 == triple).map (·.2)

def assign (t : VendorTable) (entry : OctetTriple × String) : VendorTable :=
  if (t.vendorOf? entry.1).isSome then t else ⟨t.entries ++ [entry]⟩

def ofText (s : List Char) : VendorTable :=
  ((Text.fields (· == '\n') s).filterMap assignment?).foldl assign empty

def ofBytes (bytes : List UInt8) : VendorTable := ofText (Text.Utf8.decodeLossy bytes)

def find? (t : VendorTable) (a : HardwareAddress) : Option String := t.vendorOf? a.vendor

def size (t : VendorTable) : Nat := t.entries.length

/-- The vendor table is a file that cannot be read. -/
structure LoadError where
  path : String
  failure : IoFailure

def LoadError.message (e : LoadError) : String :=
  "reading vendor table " ++ e.path ++ ": " ++ e.failure.message

def load (fs : FileSystem) (path : String) : Except LoadError VendorTable :=
  match fs.read (Path.ofText path) with
  | .ok content => .ok (ofBytes content)
  | .error e => .error ⟨path, e⟩

/-- The table of the file at a path; one that cannot be read is empty. -/
def loadElseEmpty (fs : FileSystem) (path : String) : VendorTable :=
  match load fs path with
  | .ok t => t
  | .error _ => empty

end VendorTable

end LeaseKeeper
