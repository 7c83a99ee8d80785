/-
Values that are not wanted.

* `skipValue` — what follows a value of any depth.

A skipped value is read with less care than a wanted one: its numbers may be of any size, its
strings of any bytes.  After a comma in a list or object the next element or key has to come,
so that a trailing comma is a missing one.
-/
import LeaseKeeper.Json.NumberScan
import LeaseKeeper.Json.Punctuation

namespace LeaseKeeper.Json

/-- Reads a key that is not wanted, with its colon. -/
def skipKey : List UInt8 → Except Fault (List UInt8)
  | [] => .error .endInObject
  | b :: s => do
    if b ≠ byte '"' then throw .keyNotString
    colon (← skipString s)

mutual

/-- Skips a value, for no more than `fuel` values and closing brackets. -/
def skipValueWithin : Nat → List UInt8 → Except Fault (List UInt8)
  | 0, _ => .error .endInValue
  | fuel + 1, s =>
    match skipSpace s with
    | [] => .error .endInValue
    | b :: s =>
      if b = byte 'n' then word ['u', 'l', 'l'] s
      else if b = byte 't' then word ['r', 'u', 'e'] s
      else if b = byte 'f' then word ['a', 'l', 's', 'e'] s
      else if b = byte '-' then skipNumber s
      else if isDigit b then skipNumber (b :: s)
      else if b = byte '"' then skipString s
      else if b = byte '[' then
        match skipSpace s with
        | [] => .error .endInList
        | c :: rest => if c = byte ']' then .ok rest else skipElements fuel (c :: rest)
      else if b = byte '\x7b' then
        match skipSpace s with
        | [] => .error .endInObject
        | c :: rest => if c = byte '\x7d' then .ok rest else skipFields fuel (c :: rest)
      else .error .valueExpected

/-- Skips at least one element and those after it, up to the end of the list. -/
def skipElements : Nat → List UInt8 → Except Fault (List UInt8)
  | 0, _ => .error .endInValue
  | fuel + 1, s => do
    match skipSpace (← skipValueWithin fuel s) with
    | [] => throw .endInList
    | b :: s =>
      if b = byte ']' then return s
      else if b = byte ',' then skipElements fuel s
      else throw .listEndExpected

/-- Skips at least one field and those after it, up to the end of the object. -/
def skipFields : Nat → List UInt8 → Except Fault (List UInt8)
  | 0, _ => .error .endInValue
  | fuel + 1, s => do
    let s ← skipKey (skipSpace s)
    match skipSpace (← skipValueWithin fuel s) with
    | [] => throw .endInObject
    | b :: s =>
      if b = byte '\x7d' then return s
      else if b = byte ',' then skipFields fuel s
      else throw .objectEndExpected

end

/-- Skips a value.  Two steps are enough for each byte that is left. -/
def skipValue (s : List UInt8) : Except Fault (List UInt8) :=
  skipValueWithin (2 * s.length + 2) s

end LeaseKeeper.Json
