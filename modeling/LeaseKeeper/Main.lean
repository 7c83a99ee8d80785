/-
The program.

It reads what its paths hold, decides on that how to start, and then keeps the leases until its
standard input ends.  What it prints does not depend on the time.
-/
import LeaseKeeper.Daemon.Process

namespace LeaseKeeper

/-- The tree before anything is known of it. -/
def bareTree : FileSystem := .empty []

/-- Takes what a path holds over into a tree: a file, nothing, or else a directory. -/
def takeOver (fs : FileSystem) (path : String) : IO FileSystem := do
  let place := Path.ofText path
  try
    let content ← IO.FS.readBinFile path
    return (fs.writeWithParents place content.toList).2
  catch
    | .noFileOrDirectory .. => return fs
    | _ => return (fs.makeDirectories place).2

/-- The paths that a command line makes the program look at. -/
def pathsOf (arguments : List String) : List String :=
  match Settings.parse arguments with
  | .ok o => [o.stateDirectory, o.leaseFilePath, o.vendorPath] ++ o.logDirectory.toList
  | .error _ => []

/-- Nothing is known of endpoints, of which there are none. -/
def noEndpoints : Outcomes where
  hasEnded _ := false
  stop _ := .ok ()
  bind _ := .ok ()

/-- Says how the process ends. -/
def finish (e : Exit) : IO UInt32 := do
  IO.print e.output
  if let some text := e.complaint then
    IO.eprintln text
  return UInt32.ofNat e.code

end LeaseKeeper

open LeaseKeeper in
def main (arguments : List String) : IO UInt32 := do
  let fs ← (pathsOf arguments).foldlM takeOver bareTree
  match Launch.ofArguments arguments .epoch (.ok []) fs with
  | (.ended e, _) => finish e
  | (.running d, _) =>
    if let .ok o := Settings.parse arguments then
      IO.FS.createDirAll o.stateDirectory
    let _ ← (← IO.getStdin).readToEnd
    finish (d.terminate.join (.ok []) noEndpoints).exit
