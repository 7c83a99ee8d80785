/-
JSON documents as trees.

A number is an integer if its literal has neither fraction nor exponent and fits into 64
bits, signed or unsigned; every other number is a double, held by its bits.  An object is a
list of fields in the order in which they are written.

* `Value.write` — the text of a document, on one line or indented by tabs;
* `quotedString` — a string as it stands in a document.
-/
import LeaseKeeper.Decimal.Shortest

namespace LeaseKeeper.Json

inductive Value where
  | null
  | boolean (b : Bool)
  | integer (n : Int)
  | double (bits : UInt64)
  | string (s : String)
  | array (elements : List Value)
  | object (fields : List (String × Value))
  deriving Inhabited

/-- Doubles are positional while their first digit stands at one of the exponents -5 to 15. -/
def doubleFormat : Decimal.DoubleFormat := ⟨-5, 15⟩

/-- One character of a string as it stands in a document: only what must be escaped is. -/
def escapedChar (c : Char) : List Char :=
  if c = '"' then ['\\', '"']
  else if c = '\\' then ['\\', '\\']
  else if c = '\x08' then ['\\', 'b']
  else if c = '\t' then ['\\', 't']
  else if c = '\n' then ['\\', 'n']
  else if c = '\x0c' then ['\\', 'f']
  else if c = '\r' then ['\\', 'r']
  else if c.toNat < 0x20 then
    ['\\', 'u', '0', '0', Text.hexDigit (c.toNat / 16), Text.hexDigit (c.toNat % 16)]
  else [c]

/-- A string as it stands in a document. -/
def quotedString (s : String) : List Char :=
  '"' :: (s.toList.flatMap escapedChar ++ ['"'])

/-- How the parts of a document are set apart. -/
inductive Layout where
  /-- Everything on one line, without blanks. -/
  | compact
  /-- One item per line, indented by a tab per level. -/
  | indented
  deriving DecidableEq

namespace Layout

/-- What stands before an item, or before a closing bracket, `depth` levels deep. -/
def lineBreak : Layout → Nat → List Char
  | .compact, _ => []
  | .indented, depth => '\n' :: List.replicate depth '\t'

/-- What stands between a key and its value. -/
def colon : Layout → List Char
  | .compact => [':']
  | .indented => [':', ' ']

end Layout

namespace Value

mutual

/-- The text of a document whose first line is already indented `depth` levels. -/
def writeAt (layout : Layout) (depth : Nat) : Value → List Char
  | .null => ['n', 'u', 'l', 'l']
  | .boolean true => ['t', 'r', 'u', 'e']
  | .boolean false => ['f', 'a', 'l', 's', 'e']
  | .integer n => Text.integer n
  | .double bits => (doubleFormat.text bits).toList
  | .string s => quotedString s
  | .array [] => ['[', ']']
  | .array (v :: vs) =>
    '[' :: (layout.lineBreak (depth + 1) ++ writeAt layout (depth + 1) v ++
      writeElements layout (depth + 1) vs ++ layout.lineBreak depth ++ [']'])
  | .object [] => ['\x7b', '\x7d']
  | .object ((key, v) :: fields) =>
    '\x7b' :: (layout.lineBreak (depth + 1) ++ quotedString key ++ layout.colon ++
      writeAt layout (depth + 1) v ++ writeFields layout (depth + 1) fields ++
      layout.lineBreak depth ++ ['\x7d'])

/-- The elements after the first of an array, each after a comma. -/
def writeElements (layout : Layout) (depth : Nat) : List Value → List Char
  | [] => []
  | v :: vs =>
    ',' :: (layout.lineBreak depth ++ writeAt layout depth v ++ writeElements layout depth vs)

/-- The fields after the first of an object, each after a comma. -/
def writeFields (layout : Layout) (depth : Nat) : List (String × Value) → List Char
  | [] => []
  | (key, v) :: fields =>
    ',' :: (layout.lineBreak depth ++ quotedString key ++ layout.colon ++
      writeAt layout depth v ++ writeFields layout depth fields)

end

def write (layout : Layout) (v : Value) : List Char := writeAt layout 0 v

/-- The text of a document that makes up a whole file: indented, and ending in a newline. -/
def writeFile (v : Value) : List Char := v.write .indented ++ ['\n']

end Value

end LeaseKeeper.Json
