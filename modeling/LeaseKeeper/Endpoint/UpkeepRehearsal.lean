/-
Rehearsals of the loop that keeps the endpoints in step with the addresses.

What others do to the loop takes no time.  Then time passes, and the loop goes as far as it
can: to where it waits, or to a pass of a reconciliation that is not over yet.

* `UpkeepRehearsal.step?` — the next step that the loop can make before a given time;
* `UpkeepRehearsal.runUntil` — all its steps before that time.
-/
import LeaseKeeper.Endpoint.Rehearsal
import LeaseKeeper.Endpoint.Upkeep

namespace LeaseKeeper

/-- How far a reconciliation or a shutdown has come. -/
inductive Progress where
  | notBegun
  | stopping (p : Rehearsal.Pass StopFault)
  | binding (stopped : Rehearsal.Pass StopFault) (p : Rehearsal.Pass IoFailure)

/-- The loop in a rehearsal. -/
structure UpkeepRehearsal where
  upkeep : Upkeep
  stage : Rehearsal
  progress : Progress
  /-- What the source answers. -/
  source : Option (List Address)

namespace UpkeepRehearsal

def start (initial : List Address) (stage : Rehearsal) : UpkeepRehearsal :=
  ⟨.start initial, stage, .notBegun, none⟩

def isFinished (u : UpkeepRehearsal) : Bool := u.upkeep.phase = .closed

/-- Whether something that is over at `finish` is over before `time`. -/
def isReached (u : UpkeepRehearsal) (time finish : Nat) : Bool :=
  finish < time || finish ≤ u.stage.now

/-- The reconciliation or shutdown ends with the given outcomes. -/
def complete (u : UpkeepRehearsal) (o : Outcomes) : UpkeepRehearsal :=
  let upkeep := u.upkeep.complete o
  { u with
    upkeep
    stage := u.stage.adopt u.upkeep.pool.opened upkeep.pool
    progress := .notBegun }

/-- The endpoints of some addresses are told to stop. -/
def startStopping (u : UpkeepRehearsal) (as : List Address) : UpkeepRehearsal :=
  let (p, stage) := u.stage.startStopping as
  { u with stage, progress := .stopping p }

/-- The next step that the loop can make before `time`. -/
def step? (u : UpkeepRehearsal) (time : Nat) : Option UpkeepRehearsal :=
  match u.upkeep.phase, u.progress with
  | .reconciling target, .notBegun =>
    some (u.startStopping (u.stage.surplus u.upkeep.pool target))
  | .reconciling target, .stopping s =>
    if u.isReached time s.finish then
      let stage := u.stage.passTo s.finish
      let (p, stage) := stage.startBinding (stage.missing u.upkeep.pool target)
      some { u with stage, progress := .binding s p }
    else none
  | .reconciling _, .binding s p =>
    if u.isReached time p.finish then
      let stage := u.stage.passTo p.finish
      some ({ u with stage }.complete (stage.outcomes s p))
    else none
  | .reading, _ => some { u with upkeep := u.upkeep.read u.source }
  | .closing, .stopping s =>
    if u.isReached time s.finish then
      let stage := u.stage.passTo s.finish
      some ({ u with stage }.complete (stage.closingOutcomes s))
    else none
  | .closing, _ => some (u.startStopping u.upkeep.pool.addresses)
  | .closed, _ => none
  | _, _ =>
    let upkeep := u.upkeep.turn true
    if upkeep.phase = .waiting then none else some { u with upkeep }

/-- The number of steps that are enough for all that can be left to do: two requests, of five
steps each, and a shutdown of three. -/
def enoughSteps : Nat := 13

/-- Takes up to `n` steps before `time`. -/
def run (time : Nat) : Nat → UpkeepRehearsal → UpkeepRehearsal
  | 0, u => u
  | n + 1, u =>
    match u.step? time with
    | some u => run time n u
    | none => { u with upkeep := u.upkeep.turn true }

/-- Lets time pass until the clock shows `time`. -/
def runUntil (u : UpkeepRehearsal) (time : Nat) : UpkeepRehearsal :=
  let u := run time enoughSteps u
  { u with stage := u.stage.passUpTo time }

end UpkeepRehearsal

end LeaseKeeper
