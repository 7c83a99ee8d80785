/-
JSON documents of any form.

* `Value.read` — the document of a text, or the first fault.

Of several fields with one key the last one counts, and the fields of an object are put in
the order of their keys' bytes.  A value that would lie 128 lists and objects deep is refused.
-/
import LeaseKeeper.Json.NumberScan
import LeaseKeeper.Json.Punctuation

namespace LeaseKeeper.Json

/-- Puts a field into fields with ascending keys, in place of one with the same key. -/
def insertField (key : String) (v : Value) : List (String × Value) → List (String × Value)
  | [] => [(key, v)]
  | (k, w) :: fields =>
    if key < k then (key, v) :: (k, w) :: fields
    else if key = k then (key, v) :: fields
    else (k, w) :: insertField key v fields

/-- The fields with ascending keys, of equal ones the last. -/
def orderedFields (fields : List (String × Value)) : List (String × Value) :=
  fields.foldl (fun sorted (key, v) => insertField key v sorted) []

mutual

/-- Reads a value that has room for `depth` further levels, for no more than `fuel` steps. -/
def valueWithin : Nat → Nat → List UInt8 → Except Fault (Scanned Value)
  | 0, _, _ => .error .endInValue
  | fuel + 1, depth, s =>
    match skipSpace s with
    | [] => .error .endInValue
    | b :: s =>
      if b = byte 'n' then (word ['u', 'l', 'l'] s).map fun s => (.null, s)
      else if b = byte 't' then (word ['r', 'u', 'e'] s).map fun s => (.boolean true, s)
      else if b = byte 'f' then (word ['a', 'l', 's', 'e'] s).map fun s => (.boolean false, s)
      else if b = byte '-' then (number true s).map fun (n, s) => (n.toValue, s)
      else if isDigit b then (number false (b :: s)).map fun (n, s) => (n.toValue, s)
      else if b = byte '"' then (string s).map fun (t, s) => (.string t, s)
      else if b = byte '[' then
        match depth with
        | 0 => .error .tooDeep
        | depth + 1 => (elementsWithin fuel depth true s).map fun (vs, s) => (.array vs, s)
      else if b = byte '\x7b' then
        match depth with
        | 0 => .error .tooDeep
        | depth + 1 =>
          (fieldsWithin fuel depth true s).map fun (fs, s) => (.object (orderedFields fs), s)
      else .error .valueExpected

/-- Reads the elements of a list that are left, and its closing bracket. -/
def elementsWithin : Nat → Nat → Bool → List UInt8 → Except Fault (Scanned (List Value))
  | 0, _, _, _ => .error .endInValue
  | fuel + 1, depth, isFirst, s => do
    match ← nextElement isFirst s with
    | none => return ([], ← endList s)
    | some s =>
      let (v, s) ← valueWithin fuel depth s
      let (vs, s) ← elementsWithin fuel depth false s
      return (v :: vs, s)

/-- Reads the fields of an object that are left, and its closing brace. -/
def fieldsWithin : Nat → Nat → Bool → List UInt8 → Except Fault (Scanned (List (String × Value)))
  | 0, _, _, _ => .error .endInValue
  | fuel + 1, depth, isFirst, s => do
    match ← nextKey isFirst s with
    | (none, s) => return ([], s)
    | (some key, s) =>
      let (v, s) ← valueWithin fuel depth (← colon s)
      let (fs, s) ← fieldsWithin fuel depth false s
      return ((key, v) :: fs, s)

end

/-- The number of lists and objects that may lie inside one another. -/
def greatestDepth : Nat := 127

/-- The document of a text. -/
def Value.read (s : List UInt8) : Except Fault Value := do
  let (v, rest) ← valueWithin (2 * s.length + 2) greatestDepth s
  endDocument rest
  return v

end LeaseKeeper.Json
