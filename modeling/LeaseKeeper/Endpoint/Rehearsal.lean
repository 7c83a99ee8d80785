/-
Rehearsals: endpoints that follow a script, on a clock of their own.

The clock shows milliseconds and moves only when everything waits, so waits that overlap take
as long as the longest of them.  An endpoint reads the script of its address twice: when it is
about to be bound, and when it starts to serve.

* `Script` — how long an endpoint takes to be bound and to stop, and how each of it turns out;
* `Rehearsal.startStopping`, `Rehearsal.startBinding` — begin the two slow passes of a
  reconciliation, and say when they are over and what they lead to;
* `Rehearsal.passTo` — lets time pass, so that what is due by then is seen;
* `Rehearsal.reconcile`, `Rehearsal.shutdown` — whole calls of a pool.
-/
import LeaseKeeper.Endpoint.Pool

namespace LeaseKeeper

inductive Ending where
  | clean
  | failure (wording : String)
  | crash (wording : String)
  | never
  deriving DecidableEq, Repr

/-- How the endpoint of an address behaves, with delays in milliseconds. -/
structure Script where
  bindDelay : Nat := 0
  bindFailure : Option IoFailure := none
  stopDelay : Nat := 0
  ending : Ending := .clean
  deriving Repr

inductive Act where
  | bound
  | notBound
  | stopped
  | died
  deriving DecidableEq, Repr

/-- How far an endpoint has come. -/
inductive Condition where
  /-- It is bound and has not started to serve. -/
  | bound
  | serving (s : Script)
  /-- It neither serves nor will it ever end. -/
  | stuck
  | over (e : Ending)
  deriving Repr

/-- Scripted endpoints and their clock. -/
structure Rehearsal where
  stopTimeout : Nat := 5000
  now : Nat := 0
  /-- The scripts that have been given out, the latest first. -/
  scripts : List (Address × Script) := []
  /-- The live endpoints. -/
  conditions : List (Address × Condition) := []
  /-- What is going to be seen, in the order of the times. -/
  due : List (Nat × Act × Address) := []
  /-- What has been seen since the last look. -/
  seen : List (Act × Address) := []

namespace Rehearsal

def script (r : Rehearsal) (a : Address) : Script := (r.scripts.lookup a).getD {}

def giveScript (r : Rehearsal) (as : List Address) (s : Script) : Rehearsal :=
  { r with scripts := as.map (·, s) ++ r.scripts }

/-- How far the endpoint of an address has come; one that is not there counts as over. -/
def condition (r : Rehearsal) (a : Address) : Condition :=
  (r.conditions.lookup a).getD (.over .clean)

def hasEnded (r : Rehearsal) (a : Address) : Bool :=
  match r.condition a with
  | .over _ => true
  | _ => false

/-- The endpoints that are bound start to serve. -/
def settle (r : Rehearsal) : Rehearsal :=
  { r with
    conditions := r.conditions.map fun
      | (a, .bound) => (a, .serving (r.script a))
      | c => c }

/-! ### Time -/

/-- Puts something that will happen behind all that happens no later. -/
def schedule (time : Nat) (what : Act × Address) :
    List (Nat × Act × Address) → List (Nat × Act × Address)
  | [] => [(time, what)]
  | d :: ds => if time < d.1 then (time, what) :: d :: ds else d :: schedule time what ds

/-- Lets time pass until the clock shows `time`.  Whoever is ready gets on with it before the
clock moves. -/
def passTo (r : Rehearsal) (time : Nat) : Rehearsal :=
  let r := if r.now < time then r.settle else r
  { r with
    now := time
    due := r.due.filter fun d => time < d.1
    seen := r.seen ++ (r.due.filter fun d => d.1 ≤ time).map (·.2) }

/-- Lets time pass until the clock shows `time`, but leaves what becomes due just then. -/
def passUpTo (r : Rehearsal) (time : Nat) : Rehearsal :=
  let isOver := fun d : Nat × Act × Address => decide (d.1 < time ∨ d.1 ≤ r.now)
  let r := r.settle
  { r with
    now := time
    due := r.due.filter fun d => !isOver d
    seen := r.seen ++ (r.due.filter isOver).map (·.2) }

def look (r : Rehearsal) : List (Act × Address) × Rehearsal := (r.seen, { r with seen := [] })

/-! ### Endpoints that end by themselves -/

/-- Tells the endpoint of an address to end; one that is not serving does not care. -/
def die (r : Rehearsal) (e : Ending) (a : Address) : Rehearsal :=
  match r.condition a with
  | .serving _ =>
    { r with
      conditions := r.conditions.map fun c =>
        if c.1 = a then (a, if e = .never then .stuck else .over e) else c
      seen := r.seen ++ [(.died, a)] }
  | _ => r

/-! ### Stopping -/

def endingResult : Ending → Except StopFault Unit
  | .failure wording => .error (.serve wording)
  | .crash wording => .error (.crash wording)
  | _ => .ok ()

/-- How long an endpoint takes to stop, at most until it is cut off. -/
def stopTime (timeout : Nat) : Condition → Nat
  | .over _ => 0
  | .serving s => if s.ending = .never then timeout else min s.stopDelay timeout
  | _ => timeout

/-- What stopping an endpoint leads to. -/
def stopResult (timeout : Nat) : Condition → Except StopFault Unit
  | .over e => endingResult e
  | .serving s =>
    if s.ending = .never ∨ timeout ≤ s.stopDelay then .error (.timeout timeout)
    else endingResult s.ending
  | _ => .error (.timeout timeout)

/-- What will be seen of an endpoint that is told to stop now. -/
def stopAct (r : Rehearsal) (a : Address) (due : List (Nat × Act × Address)) :
    List (Nat × Act × Address) :=
  match r.condition a with
  | .serving s =>
    if s.stopDelay < r.stopTimeout then schedule (r.now + s.stopDelay) (.stopped, a) due else due
  | _ => due

/-- A slow pass of a reconciliation that has begun: when it is over, and what it leads to. -/
structure Pass (ε : Type) where
  finish : Nat
  results : List (Address × Except ε Unit)

/-- Tells endpoints to stop.  Those that have not started to serve do so first, which puts
them in front of the others. -/
def startStopping (r : Rehearsal) (as : List Address) : Pass StopFault × Rehearsal :=
  let isNew := fun a => r.condition a matches .bound
  let r := if as.isEmpty then r else r.settle
  let order := as.filter isNew ++ as.filter fun a => !isNew a
  ({ finish := (as.map fun a => r.now + stopTime r.stopTimeout (r.condition a)).foldl max r.now
     results := as.map fun a => (a, stopResult r.stopTimeout (r.condition a)) },
    { r with due := order.foldl (fun due a => r.stopAct a due) r.due })

/-! ### Binding -/

def bindResult (s : Script) : Except IoFailure Unit :=
  match s.bindFailure with
  | some e => .error e
  | none => .ok ()

/-- What will be seen of an address that is bound from now on. -/
def bindAct (r : Rehearsal) (a : Address) (due : List (Nat × Act × Address)) :
    List (Nat × Act × Address) :=
  let s := r.script a
  let act := if s.bindFailure.isSome then Act.notBound else .bound
  schedule (r.now + s.bindDelay) (act, a) due

/-- Begins to bind addresses. -/
def startBinding (r : Rehearsal) (as : List Address) : Pass IoFailure × Rehearsal :=
  ({ finish := (as.map fun a => r.now + (r.script a).bindDelay).foldl max r.now
     results := as.map fun a => (a, bindResult (r.script a)) },
    { r with due := as.foldl (fun due a => r.bindAct a due) r.due })

/-! ### Whole calls -/

/-- The result that a pass has for an address. -/
def Pass.result {ε : Type} (p : Pass ε) (a : Address) : Except ε Unit :=
  (p.results.lookup a).getD (.ok ())

/-- The live endpoints that have not ended by themselves. -/
def remaining (r : Rehearsal) (p : EndpointPool) : EndpointPool := (p.prune r.hasEnded).1

/-- The addresses whose endpoints a reconciliation stops. -/
def surplus (r : Rehearsal) (p : EndpointPool) (target : List Address) : List Address :=
  (r.remaining p).surplus target

/-- The addresses that a reconciliation binds. -/
def missing (r : Rehearsal) (p : EndpointPool) (target : List Address) : List Address :=
  (r.remaining p).missing (Address.ascending target)

/-- What a pool meets in a reconciliation that consists of two passes. -/
def outcomes (r : Rehearsal) (stopping : Pass StopFault) (binding : Pass IoFailure) :
    Outcomes where
  hasEnded := r.hasEnded
  stop := stopping.result
  bind := binding.result

/-- What a pool meets when it stops all endpoints. -/
def closingOutcomes (r : Rehearsal) (stopping : Pass StopFault) : Outcomes :=
  r.outcomes stopping ⟨r.now, []⟩

/-- Takes over the endpoints of a pool, of which those with numbers from `opened` on have just
been bound. -/
def adopt (r : Rehearsal) (opened : Nat) (p : EndpointPool) : Rehearsal :=
  { r with
    conditions := p.live.map fun e =>
      if e.2 < opened then (e.1, r.condition e.1) else (e.1, .bound) }

/-- Makes the live endpoints of a pool match a target. -/
def reconcile (r : Rehearsal) (p : EndpointPool) (target : List Address) :
    Report × EndpointPool × Rehearsal :=
  let (stopping, s) := r.startStopping (r.surplus p target)
  let s := s.passTo stopping.finish
  let (binding, s) := s.startBinding (r.missing p target)
  let s := s.passTo binding.finish
  let (q, deeds) := p.reconcile (s.outcomes stopping binding) target
  (.ofDeeds deeds, q, s.adopt p.opened q)

def shutdown (r : Rehearsal) (p : EndpointPool) : EndpointPool × Rehearsal :=
  let (stopping, r) := r.startStopping p.addresses
  let r := r.passTo stopping.finish
  let (q, _) := p.shutdown (r.closingOutcomes stopping)
  (q, r.adopt p.opened q)

/-- Cuts all endpoints off. -/
def abandon (r : Rehearsal) : Rehearsal := { r with conditions := [], due := [] }

end Rehearsal

end LeaseKeeper
