/-
The punctuation of lists and objects.

The readers of a list and of an object ask, before each element or field, whether there is
another one; `isFirst` tells that nothing has been read after the opening bracket.

* `nextElement`, `endList` — before each element of a list, and at its end;
* `nextKey`, `colon` — before each key of an object and after it;
* `endDocument` — after the outermost value.
-/
import LeaseKeeper.Json.StringScan

namespace LeaseKeeper.Json

/-- Whether a list goes on, and from where: at the closing bracket it does not. -/
def nextElement (isFirst : Bool) (s : List UInt8) : Except Fault (Option (List UInt8)) :=
  match skipSpace s with
  | [] => .error .endInList
  | b :: rest =>
    if b = byte ']' then .ok none
    else if isFirst then .ok (some (b :: rest))
    else if b = byte ',' then
      match skipSpace rest with
      | [] => .error .endInValue
      | c :: more => if c = byte ']' then .error .trailingComma else .ok (some (c :: more))
    else .error .listEndExpected

/-- Reads the closing bracket of a list of which no further element is wanted. -/
def endList (s : List UInt8) : Except Fault (List UInt8) :=
  match skipSpace s with
  | [] => .error .endInList
  | b :: rest =>
    if b = byte ']' then .ok rest
    else if b = byte ',' then
      match skipSpace rest with
      | c :: _ => .error (if c = byte ']' then .trailingComma else .trailingCharacters)
      | [] => .error .trailingCharacters
    else .error .trailingCharacters

/-- Reads the opening quote of a key. -/
def keyQuote : List UInt8 → Except Fault (List UInt8)
  | [] => .error .endInValue
  | b :: s => if b = byte '"' then .ok s else .error .keyNotString

/-- Reads the next key of an object, or its closing brace. -/
def nextKey (isFirst : Bool) (s : List UInt8) : Except Fault (Scanned (Option String)) :=
  match skipSpace s with
  | [] => .error .endInObject
  | b :: rest =>
    if b = byte '\x7d' then .ok (none, rest)
    else if isFirst then do
      let s ← keyQuote (b :: rest)
      let (key, s) ← string s
      return (some key, s)
    else if b = byte ',' then
      match skipSpace rest with
      | [] => .error .endInValue
      | c :: more =>
        if c = byte '\x7d' then .error .trailingComma
        else do
          let s ← keyQuote (c :: more)
          let (key, s) ← string s
          return (some key, s)
    else .error .objectEndExpected

/-- Reads the colon between a key and its value. -/
def colon (s : List UInt8) : Except Fault (List UInt8) :=
  match skipSpace s with
  | [] => .error .endInObject
  | b :: rest => if b = byte ':' then .ok rest else .error .colonExpected

/-- Checks that nothing but white space is left. -/
def endDocument (s : List UInt8) : Except Fault Unit :=
  match skipSpace s with
  | [] => .ok ()
  | _ :: _ => .error .trailingCharacters

end LeaseKeeper.Json
