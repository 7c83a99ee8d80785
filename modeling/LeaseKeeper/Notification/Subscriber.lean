/-
Telling others that the leases have changed.

* `Subscriber` — someone who is told, `Answers` — what the calls of subscribers lead to;
* `ProcessTable.answers` — the answers of subscribers who look for processes to signal;
* `tellFrom` — calls subscribers one after another; one that fails does not keep the others
  from being called;
* `commitChange` — replaces the current set and then calls every subscriber once, in the order
  of registration.
-/
import LeaseKeeper.Notification.SignalTarget
import LeaseKeeper.Store.LeaseStore

namespace LeaseKeeper

/-- Someone who wants to know that the leases have changed. -/
inductive Subscriber where
  /-- The processes of a name, by a signal. -/
  | process (n : SignalTarget)
  /-- Someone else, who may fail when called. -/
  | custom (fails : Bool)
  deriving DecidableEq

/-- What calling a subscriber leads to, by its number.  When it is called, it can see the
current set and the world, with states `σ`. -/
abbrev Answers (σ : Type) := Nat → Subscriber → LeaseSet → σ → Except SignalError Unit

/-- The processes that a subscriber finds, and what sending them a signal leads to. -/
structure ProcessTable where
  listing : Except IoFailure (List ProcessEntry) := .ok []
  kill : Int → Except KillFailure Unit := fun _ => .error .noSuchProcess

/-- The directory in which the processes are listed. -/
def processDirectory : String := "/proc"

def Subscriber.answer (t : ProcessTable) : Subscriber → Except SignalError Unit
  | .process n => (n.notify processDirectory t.listing t.kill).result
  | .custom fails => if fails then .error (.processNotFound "custom") else .ok ()

def ProcessTable.answers {σ : Type} (t : ProcessTable) : Answers σ := fun _ n _ _ => n.answer t

/-- Calls subscribers, of which the first has the number `i`.  The next one is called whatever
the first one answers. -/
def tellFrom {σ : Type} (answers : Answers σ) (current : LeaseSet) (world : σ) :
    Nat → List Subscriber → List Event
  | _, [] => []
  | i, n :: ns => .notified i (answers i n current world) :: tellFrom answers current world (i + 1) ns

/-- Makes a set the current one and, if that succeeds, calls the subscribers. -/
def commitChange {σ : Type} (storage : Storage σ) (answers : Answers σ)
    (subscribers : List Subscriber) (s : LeaseSet) (store : LeaseStore) (world : σ) : Outcome σ :=
  let outcome := store.replace storage s world
  match outcome.result with
  | .ok _ =>
    let told := tellFrom answers outcome.store.current outcome.world 0 subscribers
    { outcome with events := outcome.events ++ told }
  | .error _ => outcome

end LeaseKeeper
