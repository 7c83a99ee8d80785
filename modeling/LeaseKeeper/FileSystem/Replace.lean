/-
Replacing a file as a whole.

The new content is written to a fresh file in the same directory, which then takes the place
of the old one.

* `freshDirectory`, `mentioned` — where the fresh file is made, and the names it does not get;
* `renameTarget`, `move` — the place that a path gives to a file that is moved there, and the
  move itself;
* `Mishap` — a failure from outside the tree, and the step at which it happens;
* `replace` — the whole replacement, with the tree it leaves; a failure leaves the tree as it
  was, except that one of the last step, which makes the change durable, is no failure.
-/
import LeaseKeeper.FileSystem.Operations

namespace LeaseKeeper

/-- The steps of a replacement at which something outside the tree may fail. -/
inductive ReplaceStep where
  | create
  | setMode
  | write
  | sync
  | rename
  | syncDirectory
  deriving DecidableEq

/-- A failure at a step; a failed write may have written some bytes. -/
structure Mishap where
  step : ReplaceStep
  failure : IoFailure

/-- The failure of a step, if the mishap happens there. -/
def Mishap.at? (m : Option Mishap) (step : ReplaceStep) : Except IoFailure Unit :=
  match m with
  | some m => if m.step = step then .error m.failure else .ok ()
  | none => .ok ()

/-- The names that an entry refers to. -/
def Node.mentioned : Node → List String
  | .link target => (Path.ofText target).names
  | _ => []

namespace FileSystem

/-- The mode of a fresh file before it gets its own. -/
def freshMode : Nat := 0o600

def freshNameSize : Nat := 10

/-- The names that the tree and a path use, `.` and `..` among them; a fresh file gets none of
them. -/
def mentioned (fs : FileSystem) (p : Path) : List String :=
  "" :: "." :: ".." :: (p.names ++ fs.workingDirectory ++
    fs.entries.flatMap fun entry => entry.1 ++ entry.2.mentioned)

/-- A path that does not depend on the working directory. -/
def absolute (fs : FileSystem) (p : Path) : Except IoFailure Path := do
  if p.isAbsolute then return p
  checkOpen fs.workingDirectory
  return .ofText (Path.joinText (Path.ofParts ("" :: fs.workingDirectory)).text p.text)

/-- The directory in which a replacement makes its fresh file. -/
def freshDirectory (fs : FileSystem) (p : Path) : Except IoFailure Place := do
  let path ← fs.absolute p.containing
  let directory ← fs.locateDirectory path
  if Path.sizeLimit ≤ path.text.utf8ByteSize + 1 + freshNameSize then
    throw (.system .nameTooLong)
  return directory

/-- The place that a path gives to a file that is moved there: an entry other than a
directory, or none. -/
def renameTarget (fs : FileSystem) (p : Path) : Except IoFailure Place := do
  if p.hasNul then throw (.system .invalidArgument)
  match ← fs.ending p with
  | .entry place =>
    if p.wantsDirectory then throw (.system .notDirectory)
    match fs.get? place with
    | some (.directory _) => throw (.system .isDirectory)
    | _ => return place
  | _ => throw (.system .busy)

/-- Moves the entry at a place to another one, whose entry it replaces. -/
def move (fs : FileSystem) (source target : Place) : FileSystem :=
  match fs.get? source with
  | some node => (fs.erase source).put target node
  | none => fs

/-- What is done with the fresh file: the place to which it is moved in the end. -/
def prepared (mishap : Option Mishap) (fs : FileSystem) (p : Path) : Except IoFailure Place := do
  Mishap.at? mishap .setMode
  Mishap.at? mishap .write
  Mishap.at? mishap .sync
  let target ← fs.renameTarget p
  Mishap.at? mishap .rename
  return target

/-- Replaces the file at a path, and returns the tree that is left.  After a failure the fresh
file is removed again. -/
def replaceWith (mishap : Option Mishap) (fs : FileSystem) (p : Path) (content : List UInt8) :
    Except IoFailure Unit × FileSystem :=
  match fs.freshDirectory p, Mishap.at? mishap .create with
  | .error e, _ => (.error e, fs)
  | .ok _, .error e => (.error e, fs)
  | .ok directory, .ok () =>
    let temp := directory ++ [freshName (fs.mentioned p)]
    let filled := fs.put temp (.file content fileMode)
    match filled.prepared mishap p with
    | .error e => (.error e, filled.erase temp)
    | .ok target => (.ok (), filled.move temp target)

def replace (fs : FileSystem) (p : Path) (content : List UInt8) :
    Except IoFailure Unit × FileSystem :=
  fs.replaceWith none p content

end FileSystem

end LeaseKeeper
