/-
The pool of endpoints, one for each address that is listened on.

`EndpointPool.reconcile` makes the live endpoints match a target in three passes: endpoints
that have ended by themselves are given up, those outside the target are stopped, and then
those that are missing are bound.  What a stop or a bind leads to is not the pool's choice, so
it comes from outside, as `Outcomes`.

* `EndpointPool` — the live endpoints in ascending order of their addresses, each with the
  number that it got when it was bound;
* `Deed` — one thing that a pool does, `Deed.path` — the states that the endpoint of the
  address passes through in it;
* `EndpointPool.reconcile`, `EndpointPool.shutdown` — the pool afterwards, and the deeds in
  their order;
* `Report.ofDeeds` — the deeds of a call, sorted by kind.
-/
import LeaseKeeper.IoFailure
import LeaseKeeper.Net.Address
import LeaseKeeper.Time.Delay

namespace LeaseKeeper

/-- The states of the endpoint of an address. -/
inductive EndpointState where
  | absent
  | starting
  | live
  | stopping
  deriving DecidableEq, Repr

def EndpointState.name : EndpointState → String
  | .absent => "absent"
  | .starting => "starting"
  | .live => "live"
  | .stopping => "stopping"

/-- Why an endpoint did not stop cleanly. -/
inductive StopFault where
  /-- It was still there after so many milliseconds, and was cut off. -/
  | timeout (ms : Nat)
  /-- It ended with an error of this wording. -/
  | serve (wording : String)
  /-- It crashed, which is reported in this wording. -/
  | crash (wording : String)
  deriving DecidableEq, Repr

def StopFault.message : StopFault → String
  | .timeout ms => "did not stop within " ++ Delay.toText ms
  | .serve wording => "serving failed: " ++ wording
  | .crash wording => "task failed: " ++ wording

/-- What goes wrong with the endpoint of an address. -/
inductive EndpointFault where
  | bind (address : Address) (e : IoFailure)
  | stop (address : Address) (e : StopFault)
  deriving DecidableEq, Repr

namespace EndpointFault

def address : EndpointFault → Address
  | .bind a _ => a
  | .stop a _ => a

def message : EndpointFault → String
  | .bind a e => "binding endpoint on " ++ a.toText ++ ": " ++ e.message
  | .stop a e => "stopping endpoint on " ++ a.toText ++ ": " ++ e.message

end EndpointFault

/-- One thing that a pool does to the endpoint of an address. -/
inductive Deed where
  /-- It gives up an endpoint that has ended by itself. -/
  | lost (address : Address) (endpoint : Nat)
  | stopped (address : Address) (endpoint : Nat) (result : Except StopFault Unit)
  | bound (address : Address) (endpoint : Nat)
  | notBound (address : Address) (e : IoFailure)

namespace Deed

def address : Deed → Address
  | .lost a _ => a
  | .stopped a _ _ => a
  | .bound a _ => a
  | .notBound a _ => a

/-- The states that the endpoint passes through. -/
def path : Deed → List EndpointState
  | .lost _ _ => [.live, .absent]
  | .stopped _ _ _ => [.live, .stopping, .absent]
  | .bound _ _ => [.absent, .starting, .live]
  | .notBound _ _ => [.absent, .starting, .absent]

end Deed

/-- What one call of a pool finds and meets. -/
structure Outcomes where
  /-- Whether the endpoint of an address has ended by itself before the call. -/
  hasEnded : Address → Bool
  /-- What stopping the endpoint of an address leads to. -/
  stop : Address → Except StopFault Unit
  /-- What binding an address leads to. -/
  bind : Address → Except IoFailure Unit

/-- The live endpoints.  The next one that is bound gets the number `opened`. -/
structure EndpointPool where
  live : List (Address × Nat)
  opened : Nat
  deriving DecidableEq

namespace EndpointPool

def empty : EndpointPool := ⟨[], 0⟩

/-- The addresses with a live endpoint. -/
def addresses (p : EndpointPool) : List Address := p.live.map (·.1)

def endpoint? (p : EndpointPool) (a : Address) : Option Nat := p.live.lookup a

/-- Whether an address has a live endpoint. -/
def serves (p : EndpointPool) (a : Address) : Bool := (p.endpoint? a).isSome

/-- Puts an endpoint in its place among others. -/
def insertLive (a : Address) (n : Nat) : List (Address × Nat) → List (Address × Nat)
  | [] => [(a, n)]
  | b :: bs => if a.rank < b.1.rank then (a, n) :: b :: bs else b :: insertLive a n bs

def add (p : EndpointPool) (a : Address) : EndpointPool :=
  ⟨insertLive a p.opened p.live, p.opened + 1⟩

/-- Gives up the endpoints that have ended by themselves. -/
def prune (p : EndpointPool) (hasEnded : Address → Bool) : EndpointPool × List Deed :=
  ({ p with live := p.live.filter fun e => !hasEnded e.1 },
    (p.live.filter fun e => hasEnded e.1).map fun e => .lost e.1 e.2)

/-- The live addresses outside a target. -/
def surplus (p : EndpointPool) (target : List Address) : List Address :=
  p.addresses.filter fun a => !target.contains a

/-- The addresses of a target without a live endpoint. -/
def missing (p : EndpointPool) (target : List Address) : List Address :=
  target.filter fun a => !p.serves a

/-- Stops the endpoints outside a target, whatever that leads to. -/
def release (p : EndpointPool) (stop : Address → Except StopFault Unit)
    (target : List Address) : EndpointPool × List Deed :=
  ({ p with live := p.live.filter fun e => target.contains e.1 },
    (p.live.filter fun e => !target.contains e.1).map fun e => .stopped e.1 e.2 (stop e.1))

/-- Binds addresses one after another; one that cannot be bound is left out. -/
def bindAll (bind : Address → Except IoFailure Unit) :
    List Address → EndpointPool → EndpointPool × List Deed
  | [], p => (p, [])
  | a :: as, p =>
    match bind a with
    | .ok () =>
      let (q, deeds) := bindAll bind as (p.add a)
      (q, .bound a p.opened :: deeds)
    | .error e =>
      let (q, deeds) := bindAll bind as p
      (q, .notBound a e :: deeds)

/-- Makes the live endpoints match a target; those of the target that are live stay as they
are. -/
def reconcile (p : EndpointPool) (o : Outcomes) (target : List Address) :
    EndpointPool × List Deed :=
  let target := Address.ascending target
  let (p, lost) := p.prune o.hasEnded
  let (p, stopped) := p.release o.stop target
  let (p, bound) := bindAll o.bind (p.missing target) p
  (p, lost ++ stopped ++ bound)

def shutdown (p : EndpointPool) (o : Outcomes) : EndpointPool × List Deed :=
  p.release o.stop []

end EndpointPool

/-- What a call of a pool has led to, each list in ascending order of the addresses but for
the faults, of which those of stopping come first. -/
structure Report where
  started : List Address
  stopped : List Address
  lost : List Address
  failed : List EndpointFault
  deriving DecidableEq

namespace Report

/-- The deeds of a call, sorted by kind. -/
def ofDeeds (deeds : List Deed) : Report where
  started := deeds.filterMap fun
    | .bound a _ => some a
    | _ => none
  stopped := deeds.filterMap fun
    | .stopped a _ _ => some a
    | _ => none
  lost := deeds.filterMap fun
    | .lost a _ => some a
    | _ => none
  failed := deeds.filterMap fun
    | .stopped a _ (.error e) => some (.stop a e)
    | .notBound a e => some (.bind a e)
    | _ => none

/-- Whether the call has neither started nor stopped an endpoint. -/
def isIdle (r : Report) : Bool := r.started.isEmpty && r.stopped.isEmpty

end Report

end LeaseKeeper
