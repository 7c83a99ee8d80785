/-
Paths as they are written, and where they lead.

* `Path.names` — the names between the slashes;
* `Path.parent?` — the path without its last name;
* `Path.check` — whether the system takes a path at all;
* `FileSystem.locate` — the place that a path leads to, through all links, and what is there;
* `FileSystem.locateEntry` — the same, but a link in the last place is not followed;
* `FileSystem.ending` — where an entry of that path is made, moved to or removed.

Design notes: a path leads through at most 40 links; this and the number of names left bound
the walk.  A slash at the end of a path is walked as a `.` would be, so that what stands before
it has to be a directory and is followed if it is a link.
-/
import LeaseKeeper.FileSystem.Basic
import LeaseKeeper.IoFailure
import LeaseKeeper.Text.Fields

namespace LeaseKeeper

structure Path where
  ofText ::
  text : String
  deriving DecidableEq

namespace Path

/-- The number of bytes that is too much for a path. -/
def sizeLimit : Nat := 4096

def isAbsolute (p : Path) : Bool := p.text.toList.head? == some '/'

/-- What stands between the slashes, and before and after them. -/
def parts (p : Path) : List String := (Text.fields (· == '/') p.text.toList).map String.ofList

/-- The path that has the given parts. -/
def ofParts (parts : List String) : Path :=
  ofText (if parts = [""] then "/" else "/".intercalate parts)

/-- The names between the slashes, `.` and `..` among them. -/
def names (p : Path) : List String := p.parts.filter (· ≠ "")

/-- Whether the path ends in a slash after a name, so that it can only mean a directory. -/
def wantsDirectory (p : Path) : Bool := p.names ≠ [] && p.parts.getLast? == some ""

/-- The names along which the path leads. -/
def steps (p : Path) : List String := if p.wantsDirectory then p.names ++ ["."] else p.names

/-- The path that starts with `text` and goes on with `name`; an absolute `name` stands for
itself. -/
def joinText (text name : String) : String :=
  if name.toList.head? = some '/' ∨ text = "" then name
  else if text.toList.getLast? = some '/' then text ++ name
  else text ++ "/" ++ name

/-- Whether a part leads nowhere else. -/
def isIdle (part : String) : Bool := part == "" || part == "."

/-- Parts without the idle ones at their end. -/
def trimIdle (parts : List String) : List String := (parts.reverse.dropWhile isIdle).reverse

/-- The path without its last name; a `.` counts only at the front of a relative path. -/
def parent? (p : Path) : Option Path :=
  let (front, rest) := match p.parts with
    | "" :: rest => ([""], rest)
    | "." :: rest => (["."], rest)
    | rest => ([], rest)
  match trimIdle rest with
  | [] => if front = ["."] then some (ofText "") else none
  | kept => some (ofParts (front ++ trimIdle kept.dropLast))

def isEmpty (p : Path) : Bool := p.text == ""

/-- The directory that holds what the path names: without one, the working directory. -/
def containing (p : Path) : Path :=
  match p.parent? with
  | some parent => if parent.isEmpty then ofText "." else parent
  | none => ofText "."

/-- Whether the path has the character that ends a path in a system call. -/
def hasNul (p : Path) : Bool := p.text.toList.contains '\x00'

/-- Refuses a path that no system call takes. -/
def check (p : Path) : Except IoFailure Unit :=
  if p.hasNul then .error .nulInPath
  else if p.isEmpty then .error (.system .noEntry)
  else if sizeLimit ≤ p.text.utf8ByteSize then .error (.system .nameTooLong)
  else .ok ()

end Path

/-- Where a path leads, and the entry there. -/
structure Spot where
  place : Place
  node? : Option Node
  deriving DecidableEq

/-- The end of a path, whose last name is not looked up. -/
inductive PathEnding where
  /-- The path has no names. -/
  | root
  | dot
  | dotDot
  /-- The entry at a place, which may be missing. -/
  | entry (place : Place)
  deriving DecidableEq

namespace FileSystem

/-- The number of links that a path may lead through. -/
def linkLimit : Nat := 40

/-- The number of bytes that a name may have. -/
def nameLimit : Nat := 255

/-- Walks from the directory at `here` along `names`, through no more than `links` links; a
link in the last place is followed if `follow`. -/
def walk (fs : FileSystem) (follow : Bool) (links : Nat) (here : Place) :
    List String → Except IoFailure Spot
  | [] => .ok ⟨here, fs.get? here⟩
  | name :: names =>
    if name = "." then fs.walk follow links here names
    else if name = ".." then fs.walk follow links here.dropLast names
    else if nameLimit < name.utf8ByteSize then .error (.system .nameTooLong)
    else
      let there := here ++ [name]
      match fs.get? there with
      | none => if names = [] then .ok ⟨there, none⟩ else .error (.system .noEntry)
      | some (.directory _) => fs.walk follow links there names
      | some (.file content mode) =>
        if names = [] then .ok ⟨there, some (.file content mode)⟩
        else .error (.system .notDirectory)
      | some (.link target) =>
        if names = [] ∧ ¬follow then .ok ⟨there, some (.link target)⟩
        else
          match links with
          | 0 => .error (.system .tooManyLinks)
          | links + 1 =>
            let path := Path.ofText target
            fs.walk follow links (if path.isAbsolute then [] else here) (path.steps ++ names)
termination_by names => (links, names.length)

def start (fs : FileSystem) (p : Path) : Place :=
  if p.isAbsolute then [] else fs.workingDirectory

/-- Where a path leads; a link in the last place is not followed. -/
def locateEntry (fs : FileSystem) (p : Path) : Except IoFailure Spot := do
  p.check
  fs.walk false linkLimit (fs.start p) p.steps

def locate (fs : FileSystem) (p : Path) : Except IoFailure Spot := do
  p.check
  fs.walk true linkLimit (fs.start p) p.steps

/-- The place of the directory at a spot. -/
def directoryAt (spot : Spot) : Except IoFailure Place :=
  match spot.node? with
  | some (.directory _) => .ok spot.place
  | some _ => .error (.system .notDirectory)
  | none => .error (.system .noEntry)

def locateDirectory (fs : FileSystem) (p : Path) : Except IoFailure Place := do
  directoryAt (← fs.locate p)

/-- The end of a path: all names but the last lead to a directory. -/
def ending (fs : FileSystem) (p : Path) : Except IoFailure PathEnding := do
  p.check
  match p.names.getLast? with
  | none => return .root
  | some name =>
    let directory ← directoryAt
      (← fs.walk true linkLimit (fs.start p) (p.names.dropLast ++ ["."]))
    if name = "." then return .dot
    if name = ".." then return .dotDot
    if nameLimit < name.utf8ByteSize then throw (.system .nameTooLong)
    return .entry (directory ++ [name])

end FileSystem

end LeaseKeeper
