/-
Text as it is shown on a terminal, without the sequences that control one.

A sequence begins with an escape character; what ends it depends on its kind.

* `TerminalState` — what a terminal has begun to read;
* `TerminalState.shows`, `TerminalState.next` — whether a character is shown, and what follows
  one that is not;
* `shown` — the characters that are shown, in their order.

Design notes: a tab or the end of a line that stands in a short sequence or in a control
sequence is shown and breaks the sequence off, so that what follows is text.  A string is ended
by any character whose encoding has the byte of its terminator.
-/
import LeaseKeeper.Text.Utf8

namespace LeaseKeeper.Text

/-- What a terminal has begun to read. -/
inductive TerminalState where
  | text
  /-- A sequence of which only the escape character has been read. -/
  | escape
  /-- A short sequence, until its last character. -/
  | short
  /-- A control sequence, until its last character. -/
  | control
  /-- A command to the system around the terminal, until a bell. -/
  | command
  /-- The beginning of a string for a device, before its parameters. -/
  | device
  | deviceParameters
  | deviceMark
  /-- A string, until its terminator. -/
  | string
  deriving DecidableEq, Repr

/-- A tab or the end of a line or page. -/
def isLayout (c : Char) : Bool := c == '\t' || c == '\n' || c == '\x0c' || c == '\r'

/-- Whether the code point of a character lies between two others, which count. -/
def isBetween (low high : Nat) (c : Char) : Bool := low ≤ c.toNat && c.toNat ≤ high

/-- The byte that ends a string. -/
def stringTerminator : UInt8 := 0x9C

namespace TerminalState

/-- Whether a character is shown. -/
def shows : TerminalState → Char → Bool
  | .text, c => isLayout c || (0x20 ≤ c.toNat && c.toNat ≠ 0x7F)
  | .escape, c | .short, c | .control, c => isLayout c
  | _, _ => false

/-- What an escape character and the next character begin. -/
def afterEscape (c : Char) : TerminalState :=
  if c = '[' then .control
  else if c = ']' then .command
  else if c = 'P' then .device
  else if c = 'X' ∨ c = '^' ∨ c = '_' then .string
  else if isBetween 0x20 0x2F c then .short
  else if isBetween 0x30 0x7E c then .text
  else .escape

/-- What a character leads to in a sequence that it neither breaks off nor begins. -/
def within : TerminalState → Char → TerminalState
  | .text, _ => .text
  | .escape, c => afterEscape c
  | .short, c => if isBetween 0x30 0x7E c then .text else .short
  | .control, c => if isBetween 0x40 0x7E c then .text else .control
  | .command, c => if c = '\x07' then .text else .command
  | .device, c =>
    if isBetween 0x20 0x2F c then .deviceMark
    else if isBetween 0x30 0x3F c then .deviceParameters
    else if isBetween 0x40 0x7E c then .string
    else .device
  | .deviceParameters, c =>
    if isBetween 0x20 0x2F c then .deviceMark
    else if isBetween 0x3C 0x7E c then .string
    else .deviceParameters
  | .deviceMark, c => if isBetween 0x30 0x7E c then .string else .deviceMark
  | .string, c => if (Utf8.encode [c]).contains stringTerminator then .text else .string

/-- What follows a character that is not shown.  An escape character begins a sequence
anywhere; two other controls break one off. -/
def next (s : TerminalState) (c : Char) : TerminalState :=
  if c = '\x1b' then .escape
  else if c = '\x18' ∨ c = '\x1a' then .text
  else s.within c

/-- The characters that are shown. -/
def shownChars : TerminalState → List Char → List Char
  | _, [] => []
  | s, c :: cs => if s.shows c then c :: shownChars .text cs else shownChars (s.next c) cs

end TerminalState

/-- The part of a text that a terminal shows. -/
def shown (s : String) : String := String.ofList (TerminalState.text.shownChars s.toList)

end LeaseKeeper.Text
