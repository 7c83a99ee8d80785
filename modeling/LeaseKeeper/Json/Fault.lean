/-
What can be wrong with the text of a JSON document.

* `Fault.message` — the wording;
* `Fault.category` — whether the text ends too early or is malformed.
-/

namespace LeaseKeeper.Json

/-- The kinds of reasons for which a text is refused. -/
inductive Category where
  /-- The text ends before the document does. -/
  | unfinished
  /-- The text is no beginning of a document. -/
  | malformed
  /-- The text is a document, or begins like one, but not one of the wanted form. -/
  | unsuitable
  deriving DecidableEq, Repr

/-- The first thing that is wrong with a text. -/
inductive Fault where
  | endInValue
  | endInList
  | endInObject
  | endInString
  | valueExpected
  | wordExpected
  | colonExpected
  | listEndExpected
  | objectEndExpected
  | trailingComma
  | trailingCharacters
  | keyNotString
  | invalidNumber
  | numberOutOfRange
  | invalidEscape
  | unpairedEscape
  | loneSurrogate
  | invalidCodePoint
  | controlCharacter
  | tooDeep
  deriving DecidableEq, Repr

namespace Fault

def message : Fault → String
  | .endInValue => "EOF while parsing a value"
  | .endInList => "EOF while parsing a list"
  | .endInObject => "EOF while parsing an object"
  | .endInString => "EOF while parsing a string"
  | .valueExpected => "expected value"
  | .wordExpected => "expected ident"
  | .colonExpected => "expected `:`"
  | .listEndExpected => "expected `,` or `]`"
  | .objectEndExpected => "expected `,` or `\x7d`"
  | .trailingComma => "trailing comma"
  | .trailingCharacters => "trailing characters"
  | .keyNotString => "key must be a string"
  | .invalidNumber => "invalid number"
  | .numberOutOfRange => "number out of range"
  | .invalidEscape => "invalid escape"
  | .unpairedEscape => "unexpected end of hex escape"
  | .loneSurrogate => "lone leading surrogate in hex escape"
  | .invalidCodePoint => "invalid unicode code point"
  | .controlCharacter =>
    "control character (\\u0000-\\u001F) found while parsing a string"
  | .tooDeep => "recursion limit exceeded"

/-- Whether the text ends too early or is malformed. -/
def category : Fault → Category
  | .endInValue | .endInList | .endInObject | .endInString => .unfinished
  | _ => .malformed

end Fault

end LeaseKeeper.Json
