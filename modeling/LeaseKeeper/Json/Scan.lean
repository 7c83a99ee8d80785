/-
The words and blanks of JSON text.

A scanner takes the bytes that are left and returns what it read with the bytes that are left
then, or the first fault.

* `skipSpace` — what follows the blanks at the front;
* `word` — the rest of `null`, `true` or `false` after its first letter.
-/
import LeaseKeeper.Json.Fault
import LeaseKeeper.Text.Digits

namespace LeaseKeeper.Json

/-- What a scanner has read, and the bytes after it. -/
abbrev Scanned (α : Type) : Type := α × List UInt8

/-- The byte of an ASCII character. -/
@[inline] def byte (c : Char) : UInt8 := UInt8.ofNat c.toNat

/-- Whether a byte is white space between the parts of a document. -/
def isSpace (b : UInt8) : Bool :=
  b == byte ' ' || b == byte '\n' || b == byte '\t' || b == byte '\r'

def isDigit (b : UInt8) : Bool := byte '0' ≤ b && b ≤ byte '9'

/-- What follows the white space at the front. -/
def skipSpace (s : List UInt8) : List UInt8 := s.dropWhile isSpace

/-- Reads the given letters. -/
def word : List Char → List UInt8 → Except Fault (List UInt8)
  | [], s => .ok s
  | _ :: _, [] => .error .endInValue
  | c :: cs, b :: s => if b = byte c then word cs s else .error .wordExpected

end LeaseKeeper.Json
