/-
The daemon as a process: from its arguments to its exit.

* `Launch.ofArguments` — a process either ends at once or runs on;
* `Daemon.exit` — how it ends after its tasks are joined;
* `Exit` — the exit code with what is printed.
-/
import LeaseKeeper.CommandLine.Help
import LeaseKeeper.CommandLine.Parse
import LeaseKeeper.Daemon.Running

namespace LeaseKeeper

structure Exit where
  code : Nat
  output : String
  /-- What it says about a failure. -/
  complaint : Option String
  deriving DecidableEq, Repr

namespace Exit

def success (output : String) : Exit := ⟨0, output, none⟩

/-- A process that refuses its arguments. -/
def refused (r : CommandLine.Refusal) : Exit := ⟨2, "", some ("error: " ++ r.message)⟩

def noLog : Exit := ⟨101, "", none⟩

/-- A numbered cause; its further lines are indented as far as the first. -/
def causeText (index : Nat) (wording : String) : String :=
  let number := Text.decimal index
  String.ofList (List.replicate (5 - number.length) ' ' ++ number) ++ ": " ++
    wording.replace "\n" "\n       "

def failureText (failure first second : String) : String :=
  "Error: " ++ failure ++ "\n\nCaused by:\n" ++ causeText 0 first ++ "\n" ++ causeText 1 second

/-- A process that cannot start its daemon. -/
def notStarted (e : StartError) : Exit :=
  ⟨1, "", some (failureText "starting dhcp4d" e.message e.cause)⟩

/-- A process whose daemon has failed. -/
def daemonFailed : Exit := ⟨1, "", some "Error: dhcp4d terminated after a fatal error"⟩

end Exit

def Daemon.exit (d : Daemon) : Exit := if d.failed then .daemonFailed else .success ""

def logFileName : String := "dhcp4d.log"

/-- Makes sure that a log file is there. -/
def touchLog (fs : FileSystem) (path : Path) : Except IoFailure FileSystem :=
  match fs.read path with
  | .ok _ => .ok fs
  | .error _ => fs.write path []

/-- Opens the log; a log directory that is missing is created. -/
def openLog (fs : FileSystem) (directory : String) : Except IoFailure Unit × FileSystem :=
  let path := Path.ofText (Path.joinText directory logFileName)
  let touched (fs : FileSystem) : Except IoFailure Unit × FileSystem :=
    match touchLog fs path with
    | .ok fs => (.ok (), fs)
    | .error e => (.error e, fs)
  match touched fs with
  | (.ok (), fs) => (.ok (), fs)
  | (.error _, fs) =>
    match path.parent?.elim (.ok (), fs) fs.makeDirectories with
    | (.ok (), fs) => touched fs
    | (.error e, fs) => (.error e, fs)

/-- What becomes of a process that is started. -/
inductive Launch where
  | ended (e : Exit)
  | running (d : Daemon)

namespace Launch

/-- Starts the daemon that settings ask for. -/
def ofSettings (o : Settings) (now : Instant) (reported : Except SupplyFailure (List (Option Address)))
    (fs : FileSystem) : Launch × FileSystem :=
  match o.logDirectory.elim (.ok (), fs) (openLog fs) with
  | (.error _, fs) => (.ended .noLog, fs)
  | (.ok (), fs) =>
    let setup := { Setup.ofSettings o with endsOnSignal := true }
    match setup.start now (setup.supply.answer reported) fs with
    | (.ok d, fs) => (.running d, fs)
    | (.error e, fs) => (.ended (.notStarted e), fs)

def ofArguments (arguments : List String) (now : Instant)
    (reported : Except SupplyFailure (List (Option Address))) (fs : FileSystem) :
    Launch × FileSystem :=
  match Settings.parse arguments with
  | .error .help => (.ended (.success CommandLine.helpText), fs)
  | .error .version => (.ended (.success CommandLine.versionText), fs)
  | .error (.refused r) => (.ended (.refused r), fs)
  | .ok o => ofSettings o now reported fs

end Launch

end LeaseKeeper
