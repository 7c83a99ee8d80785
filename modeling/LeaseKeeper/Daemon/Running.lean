/-
A running daemon: the store with those who are told of changes, and the tasks.

A change of the leases that cannot be made durable is fatal: the task that watches for it fails,
which cancels the other tasks.

* `Setup.start` — starts a daemon, or says why it cannot start;
* `Daemon.changeLeases` — the leases change;
* `Daemon.cancel`, `Daemon.request`, `Daemon.terminate` — what the daemon is told;
* `Daemon.settle` — its tasks go as far as they can; `Daemon.join` — and are joined.
-/
import LeaseKeeper.Daemon.Setup
import LeaseKeeper.Daemon.TaskSet
import LeaseKeeper.Endpoint.Upkeep
import LeaseKeeper.VendorTable

namespace LeaseKeeper

inductive StartError where
  | stateDirectory (path : String) (e : IoFailure)
  | store (e : StoreError)
  | addresses (e : SupplyFailure)

namespace StartError

def message : StartError → String
  | .stateDirectory path e => "creating state directory " ++ path ++ ": " ++ e.message
  | .store e => e.message
  | .addresses e => e.message

def cause : StartError → String
  | .stateDirectory _ e => e.message
  | .store (.corrupt _ e) => e.message
  | .store (.unreadable _ e) => e.message
  | .store (.notPersisted _ e) => e.message
  | .addresses e => e.cause

end StartError

inductive DaemonTask where
  | upkeep
  /-- Passes the signal to reconsider the addresses on. -/
  | relay
  /-- Fails when a change could not be made durable. -/
  | fatalWatch
  /-- Cancels the tasks when the process is told to end. -/
  | signalHandler
  deriving DecidableEq, Repr

structure Daemon where
  leaseFilePath : String
  store : LeaseStore
  subscribers : List Subscriber
  vendors : VendorTable
  /-- The leases that had not run out when they last changed. -/
  gauge : Nat
  tasks : TaskSet DaemonTask
  upkeep : Upkeep
  /-- Whether a change could not be made durable. -/
  fatal : Bool

namespace Daemon

/-- How a task can end. -/
def ending (d : Daemon) : DaemonTask → Bool → Option TaskEnd
  | .upkeep, _ => if d.upkeep.phase = .closed then some .clean else none
  | .fatalWatch, cancelled =>
    if d.fatal then some .failure else if cancelled then some .clean else none
  | _, cancelled => if cancelled then some .clean else none

/-- A new set of leases is to be made durable and current.  The replacement of the lease file may
meet a mishap, and the subscribers answer as `answers` says. -/
def commit (d : Daemon) (now : Instant) (s : LeaseSet) (fs : FileSystem)
    (mishap : Option Mishap := none) (answers : Answers FileSystem := ProcessTable.answers {}) :
    Outcome FileSystem × Daemon :=
  let storage := fileStorageWith mishap d.leaseFilePath
  let o := commitChange storage answers d.subscribers s d.store fs
  (o, { d with store := o.store, gauge := gaugeAfter now d.gauge o.events })

/-- A change could not be made durable. -/
def giveUp (d : Daemon) : Daemon := { d with fatal := true }

/-- The allocation of addresses hands a new set of leases in. -/
def changeLeases (d : Daemon) (now : Instant) (s : LeaseSet) (fs : FileSystem)
    (mishap : Option Mishap := none) (answers : Answers FileSystem := ProcessTable.answers {}) :
    Outcome FileSystem × Daemon :=
  let (o, d) := d.commit now s fs mishap answers
  (o, if o.result.isOk then d else d.giveUp)

def cancel (d : Daemon) : Daemon := { d with tasks := d.tasks.cancel }

/-- Asks for the addresses to be reconsidered. -/
def request (d : Daemon) : Daemon := { d with upkeep := d.upkeep.request }

/-- The signal to reconsider the addresses arrives. -/
def reconfigure (d : Daemon) : Daemon :=
  if d.tasks.running.contains .relay then d.request else d

/-- A signal to end arrives. -/
def terminate (d : Daemon) : Daemon :=
  if d.tasks.running.contains .signalHandler then d.cancel else d

/-- The upkeep of the endpoints notices that the tasks are cancelled. -/
def notice (d : Daemon) : Daemon :=
  if d.tasks.cancelled then { d with upkeep := d.upkeep.cancel } else d

/-- The tasks go on until each of them waits or has ended; `source` answers for the addresses,
and `o` says what becomes of endpoints. -/
def settle (d : Daemon) (source : SupplyAnswer) (o : Outcomes) : Daemon :=
  let d := d.notice
  let d := { d with upkeep := d.upkeep.goOn source.toOption o }
  { d with tasks := d.tasks.settle d.ending }

/-- Joins the tasks that have ended. -/
def joinEnded (d : Daemon) : Daemon := { d with tasks := d.tasks.joinEnded }

/-- Joins the tasks, as far as they end. -/
def join (d : Daemon) (source : SupplyAnswer) (o : Outcomes) : Daemon :=
  ((d.settle source o).joinEnded.settle source o).joinEnded

def isJoined (d : Daemon) : Bool := d.tasks.size == 0

def failed (d : Daemon) : Bool := d.tasks.failed

def abandon (d : Daemon) : Daemon := { d with tasks := d.tasks.abandon }

end Daemon

namespace Setup

/-- The tasks of a daemon with this setup. -/
def tasks (s : Setup) : List DaemonTask :=
  (if s.endsOnSignal then [.signalHandler] else []) ++ [.upkeep] ++
    (if s.reconfiguresOnSignal then [.relay] else []) ++ [.fatalWatch]

/-- Starts a daemon with the store, once that is open. -/
def startWith (s : Setup) (now : Instant) (store : LeaseStore) (addresses : List Address)
    (fs : FileSystem) : Daemon :=
  let (store, events) := store.register .gauge
  { leaseFilePath := s.leaseFilePath
    store
    subscribers := s.subscribers
    vendors := VendorTable.loadElseEmpty fs s.vendorPath
    gauge := gaugeAfter now 0 events
    tasks := .ofTasks s.tasks
    upkeep := .start addresses
    fatal := false }

/-- Starts a daemon: creates the state directory, opens the store and asks for the addresses.
The state directory stays even if the daemon cannot start. -/
def start (s : Setup) (now : Instant) (source : SupplyAnswer) (fs : FileSystem) :
    Except StartError Daemon × FileSystem :=
  match fs.makeDirectories (Path.ofText s.stateDirectory) with
  | (.error e, fs) => (.error (.stateDirectory s.stateDirectory e), fs)
  | (.ok (), fs) =>
    match LeaseStore.ofStorage (fileStorage s.leaseFilePath) fs, source with
    | .error e, _ => (.error (.store e), fs)
    | .ok _, .error e => (.error (.addresses e), fs)
    | .ok store, .ok addresses => (.ok (s.startWith now store addresses fs), fs)

end Setup

end LeaseKeeper
