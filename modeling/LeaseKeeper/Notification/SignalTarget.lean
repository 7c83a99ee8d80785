/-
Telling running processes that the leases have changed, by a signal.

The processes are the entries of the process directory whose name is a number; a process is
meant if the first argument of its command line is the configured name.

* `SignalTarget.processes` — the processes that are meant, in ascending order;
* `SignalTarget.notify` — sends the signal to each of them; the last failure counts.
-/
import LeaseKeeper.IoFailure
import LeaseKeeper.Notification.Signal
import LeaseKeeper.Text.Fields
import LeaseKeeper.Text.Quoted
import LeaseKeeper.Text.SignedNumber
import LeaseKeeper.Text.Utf8

namespace LeaseKeeper

/-- An entry of the process directory; its command line may be unreadable. -/
structure ProcessEntry where
  name : List UInt8
  commandLine? : Option (List UInt8)
  deriving DecidableEq

/-- Why a process did not get a signal. -/
inductive KillFailure where
  | noSuchProcess
  | notPermitted
  | invalidSignal
  deriving DecidableEq, Repr

def KillFailure.message : KillFailure → String
  | .noSuchProcess => "ESRCH: No such process"
  | .notPermitted => "EPERM: Operation not permitted"
  | .invalidSignal => "EINVAL: Invalid argument"

/-- Why a notification failed. -/
inductive SignalError where
  | processNotFound (name : String)
  | notListed (path : String) (e : IoFailure)
  | notSent (signal : Signal) (name : String) (pid : Int) (e : KillFailure)
  deriving DecidableEq

def SignalError.message : SignalError → String
  | .processNotFound name => "no process named " ++ Text.quoted name ++ " is running"
  | .notListed path e => "listing processes in " ++ path ++ ": " ++ e.message
  | .notSent signal name pid e =>
    "sending " ++ signal.name ++ " to " ++ Text.quoted name ++ " (pid " ++
      String.ofList (Text.integer pid) ++ "): " ++ e.message

/-- The process id that the name of an entry stands for: a number of 32 bits. -/
def pid? (name : List UInt8) : Option Int := do
  let n ← (Text.signedNumber (← Text.Utf8.decode? name)).toOption
  if -2147483648 ≤ n ∧ n ≤ 2147483647 then some n else none

def firstArgument (commandLine : List UInt8) : List UInt8 := commandLine.takeWhile (· ≠ 0)

/-- Notifies the processes of a name by a signal. -/
structure SignalTarget where
  name : String
  signal : Signal
  deriving DecidableEq

namespace SignalTarget

/-- The process that an entry stands for, if it is meant. -/
def match? (n : SignalTarget) (entry : ProcessEntry) : Option Int := do
  let pid ← pid? entry.name
  let commandLine ← entry.commandLine?
  if firstArgument commandLine = Text.Utf8.encode n.name.toList then some pid else none

/-- The processes that are meant, in ascending order. -/
def processes (n : SignalTarget) (entries : List ProcessEntry) : List Int :=
  (entries.filterMap n.match?).mergeSort (· ≤ ·)

/-- What a notification leads to, and the processes to which it tried to send the signal. -/
structure Attempt where
  result : Except SignalError Unit
  signalled : List Int

/-- Tries to send the signal to one more process.  A failure takes the place of an earlier one. -/
def attempt (n : SignalTarget) (kill : Int → Except KillFailure Unit) (a : Attempt) (pid : Int) :
    Attempt where
  result :=
    match kill pid with
    | .ok () => a.result
    | .error e => .error (.notSent n.signal n.name pid e)
  signalled := a.signalled ++ [pid]

/-- Sends the signal to every process that is meant.  `path` is the process directory and
`listing` what is in it. -/
def notify (n : SignalTarget) (path : String) (listing : Except IoFailure (List ProcessEntry))
    (kill : Int → Except KillFailure Unit) : Attempt :=
  match listing with
  | .error e => ⟨.error (.notListed path e), []⟩
  | .ok entries =>
    match n.processes entries with
    | [] => ⟨.error (.processNotFound n.name), []⟩
    | pids => pids.foldl (n.attempt kill) ⟨.ok (), []⟩

end SignalTarget

end LeaseKeeper
