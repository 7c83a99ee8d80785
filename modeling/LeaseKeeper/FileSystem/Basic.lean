/-
The tree of files, directories and symbolic links.

A `FileSystem` maps the names that lead from the root to an entry, to the entry.  The root is
a directory that is always there.

* `get?`, `put`, `erase`, `eraseTree`, `eraseBelow` — looking entries up and changing them;
* `names` — the names in a directory;
* `isDetached` — whether a directory is the working directory of old, which has been removed;
* `freshName` — a name that a directory does not have yet; `freshName_not_mem` says so.

Design notes: a working directory that is removed stays a directory to those who work in it,
but nothing can be created there, and no path from the root leads to it.  It moves to a place
whose last name is empty, as no name between slashes is.
-/

namespace LeaseKeeper

/-- The names that lead from the root to an entry, without links, `.` and `..`. -/
abbrev Place := List String

inductive Node where
  | file (content : List UInt8) (mode : Nat)
  | directory (mode : Nat)
  | link (target : String)
  deriving DecidableEq

/-- The tree and the directory in which relative paths start. -/
structure FileSystem where
  entries : List (Place × Node)
  workingDirectory : Place

namespace FileSystem

def directoryMode : Nat := 0o755

def fileMode : Nat := 0o644

/-- The tree that has nothing but the working directory. -/
def empty (workingDirectory : Place) : FileSystem where
  entries := (List.range workingDirectory.length).map fun n =>
    (workingDirectory.take (n + 1), .directory directoryMode)
  workingDirectory := workingDirectory

def get? (fs : FileSystem) (p : Place) : Option Node :=
  if p = [] then some (.directory directoryMode)
  else (fs.entries.find? fun entry => entry.1 == p).map (·.2)

def put (fs : FileSystem) (p : Place) (n : Node) : FileSystem :=
  { fs with entries := (p, n) :: fs.entries.filter fun entry => entry.1 != p }

def erase (fs : FileSystem) (p : Place) : FileSystem :=
  { fs with entries := fs.entries.filter fun entry => entry.1 != p }

/-- Whether a place is that of a removed directory. -/
def isDetached (p : Place) : Bool := p.getLast? == some ""

/-- The place to which the directory at a place moves when it is removed. -/
def detachedPlace (p : Place) : Place := p.dropLast ++ [""]

/-- Removes the entry at a place and everything below it. -/
def eraseTree (fs : FileSystem) (p : Place) : FileSystem :=
  let rest := { fs with entries := fs.entries.filter fun entry => !p.isPrefixOf entry.1 }
  if p.isPrefixOf fs.workingDirectory then
    let place := detachedPlace fs.workingDirectory
    { rest.put place ((fs.get? fs.workingDirectory).getD (.directory directoryMode)) with
      workingDirectory := place }
  else rest

/-- The names in the directory at a place. -/
def names (fs : FileSystem) (p : Place) : List String :=
  fs.entries.filterMap fun entry =>
    if p.isPrefixOf entry.1 then
      match entry.1.drop p.length with
      | [name] => if name = "" then none else some name
      | _ => none
    else none

/-- Removes everything below a place. -/
def eraseBelow (fs : FileSystem) (p : Place) : FileSystem :=
  (fs.names p).foldl (fun fs name => fs.eraseTree (p ++ [name])) fs

/-- The number of characters in all the given names. -/
def totalLength (names : List String) : Nat :=
  names.foldr (fun name total => name.length + total) 0

def freshName (names : List String) : String :=
  String.ofList ('.' :: List.replicate (totalLength names) 'x')

theorem length_le_totalLength {names : List String} {name : String} (h : name ∈ names) :
    name.length ≤ totalLength names := by
  induction names with
  | nil => cases h
  | cons first rest ih =>
    have htotal : totalLength (first :: rest) = first.length + totalLength rest := rfl
    rcases List.mem_cons.mp h with rfl | h
    · omega
    · have := ih h
      omega

theorem freshName_not_mem (names : List String) : freshName names ∉ names := by
  intro h
  have hle := length_le_totalLength h
  have hlen : (freshName names).length = totalLength names + 1 := by
    rw [freshName, String.length_ofList, List.length_cons, List.length_replicate]
  omega

end FileSystem

end LeaseKeeper
