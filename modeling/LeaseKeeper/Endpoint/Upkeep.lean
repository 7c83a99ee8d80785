/-
The loop that keeps the endpoints in step with the addresses.

The loop reconciles the pool with the addresses that it starts with, and then once for each
request that it takes, with the addresses that the source names at that time.  A request that
finds the loop waiting wakes it; any other is stored, and storing does not count: there is at
most one stored request.  When it sees that it has been cancelled, the loop stops all endpoints
and ends.

* `Upkeep` — the state of the loop, the pool and the stored request;
* `Upkeep.request`, `Upkeep.cancel` — what others do;
* `Upkeep.turn`, `Upkeep.read`, `Upkeep.complete` — the steps of the loop itself;
* `Upkeep.goOn` — all of them, one after the other.
-/
import LeaseKeeper.Endpoint.Pool

namespace LeaseKeeper

/-- What the loop is doing. -/
inductive Upkeep.Phase where
  | reconciling (target : List Address)
  /-- It has time to look what there is to do. -/
  | idle
  /-- It has found nothing and waits. -/
  | waiting
  /-- It has been given a request while it waited, and has not gone on yet. -/
  | woken
  /-- It has taken a request and asks the source. -/
  | reading
  | closing
  | closed
  deriving DecidableEq, Repr

structure Upkeep where
  pool : EndpointPool
  phase : Upkeep.Phase
  stored : Bool
  cancelled : Bool
  /-- How often the source has been asked. -/
  asked : Nat

namespace Upkeep

def start (initial : List Address) : Upkeep := ⟨.empty, .reconciling initial, false, false, 0⟩

/-- Asks for a reconciliation. -/
def request (u : Upkeep) : Upkeep :=
  if u.phase = .waiting then { u with phase := .woken } else { u with stored := true }

def cancel (u : Upkeep) : Upkeep := { u with cancelled := true }

/-- The loop looks what there is to do.  If it could as well end as take a request,
`endFirst` says which it does. -/
def turn (u : Upkeep) (endFirst : Bool) : Upkeep :=
  match u.phase with
  | .idle | .waiting | .woken =>
    if u.cancelled && (endFirst || !(u.phase == .woken || u.stored)) then
      { u with phase := .closing }
    else if u.phase = .woken then { u with phase := .reading }
    else if u.stored then { u with phase := .reading, stored := false }
    else { u with phase := .waiting }
  | _ => u

/-- The source answers the loop; without an answer all endpoints stay as they are. -/
def read (u : Upkeep) (answer : Option (List Address)) : Upkeep :=
  match u.phase, answer with
  | .reading, some target => { u with phase := .reconciling target, asked := u.asked + 1 }
  | .reading, none => { u with phase := .idle, asked := u.asked + 1 }
  | _, _ => u

/-- The reconciliation or the shutdown that is going on comes to its end. -/
def complete (u : Upkeep) (o : Outcomes) : Upkeep :=
  match u.phase with
  | .reconciling target => { u with pool := (u.pool.reconcile o target).1, phase := .idle }
  | .closing => { u with pool := (u.pool.shutdown o).1, phase := .closed }
  | _ => u

/-- Takes up to `n` steps, none of which takes time. -/
def goOnFor (source : Option (List Address)) (o : Outcomes) : Nat → Upkeep → Upkeep
  | 0, u => u
  | n + 1, u =>
    match u.phase with
    | .reconciling _ | .closing => goOnFor source o n (u.complete o)
    | .reading => goOnFor source o n (u.read source)
    | .idle | .woken => goOnFor source o n (u.turn true)
    | .waiting => if u.cancelled then goOnFor source o n (u.turn true) else u
    | .closed => u

/-- Goes on until the loop waits or has ended.  Two requests, of three steps each, and a
shutdown of two steps are the most that can be left to do. -/
def goOn (u : Upkeep) (source : Option (List Address)) (o : Outcomes) : Upkeep :=
  goOnFor source o 8 u

end Upkeep

end LeaseKeeper
