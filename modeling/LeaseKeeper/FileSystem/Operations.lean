/-
Reading and changing the tree by path.

* `read`, `mode`, `listNames`, `isLink`, `isDirectory`, `pathExists` — questions;
* `write`, `makeDirectory`, `makeLink`, `removeDirectory`, `removeFile` — changes of one entry;
  each returns the changed tree, or why there is none;
* `makeDirectories`, `removeTree`, `writeWithParents` — changes of several entries, which may
  fail halfway; each returns how it went and the tree that is left.
-/
import LeaseKeeper.FileSystem.Path

namespace LeaseKeeper.FileSystem

def read (fs : FileSystem) (p : Path) : Except IoFailure (List UInt8) := do
  match (← fs.locate p).node? with
  | some (.file content _) => return content
  | some _ => throw (.system .isDirectory)
  | none => throw (.system .noEntry)

/-- The mode of a file or directory. -/
def mode (fs : FileSystem) (p : Path) : Except IoFailure Nat := do
  match (← fs.locate p).node? with
  | some (.file _ mode) => return mode
  | some (.directory mode) => return mode
  | _ => throw (.system .noEntry)

def isDirectory (fs : FileSystem) (p : Path) : Bool := (fs.locateDirectory p).isOk

def pathExists (fs : FileSystem) (p : Path) : Bool :=
  match fs.locate p with
  | .ok spot => spot.node?.isSome
  | .error _ => false

/-- Whether a path is a link. -/
def isLink (fs : FileSystem) (p : Path) : Bool :=
  match fs.locateEntry p with
  | .ok ⟨_, some (.link _)⟩ => true
  | _ => false

def listNames (fs : FileSystem) (p : Path) : Except IoFailure (List String) := do
  return fs.names (← fs.locateDirectory p)

/-- Refuses a directory in which nothing can be created any more. -/
def checkOpen (directory : Place) : Except IoFailure Unit :=
  if isDetached directory then .error (.system .noEntry) else .ok ()

/-- Writes a file in place, which is created if it is not there. -/
def write (fs : FileSystem) (p : Path) (content : List UInt8) : Except IoFailure FileSystem := do
  match ← fs.ending p with
  | .entry _ =>
    if p.wantsDirectory then throw (.system .isDirectory)
    let spot ← fs.locate p
    match spot.node? with
    | some (.file _ mode) => return fs.put spot.place (.file content mode)
    | some _ => throw (.system .isDirectory)
    | none =>
      checkOpen spot.place.dropLast
      return fs.put spot.place (.file content fileMode)
  | _ => throw (.system .isDirectory)

/-- The place at which a path allows a new entry. -/
def vacancy (fs : FileSystem) (p : Path) : Except IoFailure Place := do
  match ← fs.ending p with
  | .entry place =>
    if (fs.get? place).isSome then throw (.system .exists)
    checkOpen place.dropLast
    return place
  | _ => throw (.system .exists)

def makeDirectory (fs : FileSystem) (p : Path) : Except IoFailure FileSystem := do
  return fs.put (← fs.vacancy p) (.directory directoryMode)

/-- Creates a directory below the `depth`-th parent of a path, and those in between. -/
def makeDirectoriesWithin (fs : FileSystem) : Nat → Path → Except IoFailure Unit × FileSystem
  | depth, p =>
    let orThere (fs : FileSystem) (e : IoFailure) : Except IoFailure Unit × FileSystem :=
      (if fs.isDirectory p then .ok () else .error e, fs)
    if p.isEmpty then (.ok (), fs)
    else
      match fs.makeDirectory p with
      | .ok fs => (.ok (), fs)
      | .error e =>
        if e.kind ≠ .notFound then orThere fs e
        else
          match depth, p.parent? with
          | depth + 1, some parent =>
            match fs.makeDirectoriesWithin depth parent with
            | (.error e, fs) => (.error e, fs)
            | (.ok (), fs) =>
              match fs.makeDirectory p with
              | .ok fs => (.ok (), fs)
              | .error e => orThere fs e
          | _, _ => (.error e, fs)

/-- Creates a directory and those above it that are missing. -/
def makeDirectories (fs : FileSystem) (p : Path) : Except IoFailure Unit × FileSystem :=
  fs.makeDirectoriesWithin p.names.length p

/-- Writes a file, after the directories above it that are missing have been created. -/
def writeWithParents (fs : FileSystem) (p : Path) (content : List UInt8) :
    Except IoFailure Unit × FileSystem :=
  match p.parent?.elim (.ok (), fs) fs.makeDirectories with
  | (.error e, fs) => (.error e, fs)
  | (.ok (), fs) =>
    match fs.write p content with
    | .ok fs => (.ok (), fs)
    | .error e => (.error e, fs)

def makeLink (fs : FileSystem) (p : Path) (target : String) : Except IoFailure FileSystem := do
  if p.hasNul then throw .nulInPath
  (Path.ofText target).check
  let place ← fs.vacancy p
  if p.wantsDirectory then throw (.system .noEntry)
  return fs.put place (.link target)

def removeDirectory (fs : FileSystem) (p : Path) : Except IoFailure FileSystem := do
  match ← fs.ending p with
  | .root => throw (.system .busy)
  | .dot => throw (.system .invalidArgument)
  | .dotDot => throw (.system .directoryNotEmpty)
  | .entry place =>
    match fs.get? place with
    | some (.directory _) =>
      if fs.names place ≠ [] then throw (.system .directoryNotEmpty)
      return fs.eraseTree place
    | some _ => throw (.system .notDirectory)
    | none => throw (.system .noEntry)

/-- Removes a directory with everything in it, or a link.  What is in the directory goes
first; it is no failure if the directory goes with it. -/
def removeTree (fs : FileSystem) (p : Path) : Except IoFailure Unit × FileSystem :=
  match fs.locateEntry p with
  | .error e => (.error e, fs)
  | .ok ⟨_, none⟩ => (.error (.system .noEntry), fs)
  | .ok ⟨_, some (.file _ _)⟩ => (.error (.system .notDirectory), fs)
  | .ok ⟨place, some (.link _)⟩ => (.ok (), fs.erase place)
  | .ok ⟨place, some (.directory _)⟩ =>
    let emptied := fs.eraseBelow place
    match emptied.removeDirectory p with
    | .ok fs => (.ok (), fs)
    | .error e => (if e.kind = .notFound then .ok () else .error e, emptied)

def removeFile (fs : FileSystem) (p : Path) : Except IoFailure FileSystem := do
  let spot ← fs.locateEntry p
  match spot.node? with
  | some (.directory _) => throw (.system .isDirectory)
  | some _ => return fs.erase spot.place
  | none => throw (.system .noEntry)

end LeaseKeeper.FileSystem
