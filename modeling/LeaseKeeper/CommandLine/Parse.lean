/-
Reading a command line.

Arguments are judged from left to right.  A value that stands in an argument of its own is
judged with the next switch, or at the end; an argument that is no switch of the program is
refused at once.  Which switches go together is judged last.

* `Argument.ofText` — what an argument looks like;
* `Reading.next` — the reading after one more argument;
* `Settings.parse` — the settings of a command line.
-/
import LeaseKeeper.CommandLine.Switch

namespace LeaseKeeper.CommandLine

inductive Halt where
  | help
  | version
  | refused (r : Refusal)
  deriving DecidableEq, Repr

/-- What an argument looks like. -/
inductive Argument where
  /-- The end of the switches. -/
  | dashes
  | long (name : String) (value? : Option String)
  /-- A cluster of letters, of which only the first counts. -/
  | short (first : Char)
  | plain (text : String)
  deriving DecidableEq, Repr

def Argument.ofText (text : String) : Argument :=
  match text.toList with
  | ['-', '-'] => .dashes
  | '-' :: '-' :: s =>
    let name := s.takeWhile (· ≠ '=')
    match s.dropWhile (· ≠ '=') with
    | [] => .long (String.ofList name) none
    | _ :: value => .long (String.ofList name) (some (String.ofList value))
  | '-' :: c :: _ => .short c
  | _ => .plain text

/-- How far a command line has been read. -/
structure Reading where
  settings : Settings := {}
  /-- The switches that have been given, in the order of their first occurrence. -/
  given : List Switch := []
  /-- The last switch, if its value has not been judged: it may still be to come. -/
  pending : Option (Switch × Option String) := none

namespace Reading

/-- Judges a switch with its value, and takes it over. -/
def take (r : Reading) (s : Switch) (value? : Option String) : Except Halt Reading :=
  if s.takesValue && value?.isNone then .error (.refused (.missingValue s))
  else if s = .help then .error .help
  else if s = .version then .error .version
  else if r.given.contains s && !s.isRepeatable then .error (.refused (.repeated s))
  else
    match s.apply (value?.getD "") r.settings with
    | .error e => .error (.refused e)
    | .ok settings =>
      .ok { r with settings, given := if r.given.contains s then r.given else r.given ++ [s] }

/-- Judges the switch whose value has not been judged. -/
def settle (r : Reading) : Except Halt Reading :=
  match r.pending with
  | none => .ok r
  | some (s, value?) => { r with pending := none }.take s value?

def switch (r : Reading) (s : Switch) (value? : Option String) : Except Halt Reading := do
  match s.takesValue, value? with
  | true, none => return { ← r.settle with pending := some (s, none) }
  | false, some value => .error (.refused (.unneededValue s value))
  | _, _ => (← r.settle).take s value?

/-- Reads an argument that is none of the program's switches. -/
def unknown (text : String) : Except Halt Reading := .error (.refused (.unknownArgument text))

/-- Reads an argument before the end of the switches. -/
def next (r : Reading) (text : String) : Except Halt Reading :=
  match Argument.ofText text with
  | .dashes => .ok r
  | .long name value? =>
    match Switch.ofLong? name with
    | some s => r.switch s value?
    | none => unknown ("--" ++ name)
  | .short c =>
    match Switch.ofShort? c with
    | some s => r.switch s none
    | none => unknown (String.ofList ['-', c])
  | .plain value =>
    match r.pending with
    | some (s, none) => .ok { r with pending := some (s, some value) }
    | _ => unknown value

def all (r : Reading) : List String → Except Halt Reading
  | [] => r.settle
  | text :: rest =>
    if Argument.ofText text = .dashes then
      match rest with
      | [] => r.settle
      | extra :: _ => unknown extra
    else do (← r.next text).all rest

/-- The switches that must not go with a switch. -/
def conflictOf? : Switch → Option Switch
  | .noNotify => some .notifyProcess
  | .notifyProcess => some .noNotify
  | _ => none

/-- The first switch that does not go with another one, and that one. -/
def conflict? (given : List Switch) : Option (Switch × Switch) :=
  given.findSome? fun s =>
    match conflictOf? s with
    | some t => if given.contains t then some (s, t) else none
    | none => none

end Reading

end LeaseKeeper.CommandLine

namespace LeaseKeeper

open CommandLine in
def Settings.parse (arguments : List String) : Except Halt Settings := do
  let r ← Reading.all {} arguments
  match Reading.conflict? r.given with
  | some (s, t) => .error (.refused (.conflict s t))
  | none => return r.settings

end LeaseKeeper
