/-
Sets of tasks that are told to end together.

A task that fails or crashes cancels the set when it is joined, which tells the others to end.

* `TaskSet.endAt?` — the task at a place ends, if it can; `TaskSet.settle` — all that can do;
* `TaskSet.joinAt?` — takes over how a task has ended, no matter which one ended first;
* `TaskSet.joinAll` — joins all tasks that end by themselves or because the set is cancelled;
* `Task` — tasks as they are commonly put into a set.
-/

namespace LeaseKeeper

inductive TaskEnd where
  | clean
  | failure
  | crash
  deriving DecidableEq, Repr

/-- Tasks, with those that have ended and are not joined. -/
structure TaskSet (τ : Type) where
  running : List τ
  ended : List TaskEnd
  cancelled : Bool
  failed : Bool
  deriving DecidableEq

namespace TaskSet

variable {τ : Type}

def ofTasks (tasks : List τ) : TaskSet τ := ⟨tasks, [], false, false⟩

/-- The number of tasks that are not joined. -/
def size (s : TaskSet τ) : Nat := s.running.length + s.ended.length

def cancel (s : TaskSet τ) : TaskSet τ := { s with cancelled := true }

/-- Takes over how a task has ended. -/
def record (s : TaskSet τ) : TaskEnd → TaskSet τ
  | .clean => s
  | _ => { s with failed := true, cancelled := true }

/-- The task at a place ends if it can; `ending` says how a task can end, given whether the
set is cancelled. -/
def endAt? (ending : τ → Bool → Option TaskEnd) (s : TaskSet τ) (i : Nat) :
    Option (TaskSet τ) := do
  let e ← ending (← s.running[i]?) s.cancelled
  return { s with running := s.running.eraseIdx i, ended := s.ended ++ [e] }

def settle (ending : τ → Bool → Option TaskEnd) (s : TaskSet τ) : TaskSet τ :=
  { s with
    running := s.running.filter fun t => (ending t s.cancelled).isNone
    ended := s.ended ++ s.running.filterMap fun t => ending t s.cancelled }

/-- Joins the task at a place among those that have ended. -/
def joinAt? (s : TaskSet τ) (i : Nat) : Option (TaskSet τ) :=
  s.ended[i]?.map fun e => { s with ended := s.ended.eraseIdx i }.record e

/-- Joins the tasks that have ended. -/
def joinEnded (s : TaskSet τ) : TaskSet τ := s.ended.foldl record { s with ended := [] }

/-- Joins tasks until those that are left neither have ended nor can end.  Joining cancels the
set at most once, so two rounds are enough. -/
def joinAll (ending : τ → Bool → Option TaskEnd) (s : TaskSet τ) : TaskSet τ :=
  let round := fun s => joinEnded (settle ending s)
  round (round s)

def abandon (s : TaskSet τ) : TaskSet τ :=
  { s with running := [], ended := [], cancelled := true }

end TaskSet

inductive Work where
  | atOnce (e : TaskEnd)
  /-- It waits until the set is cancelled. -/
  | onCancel (e : TaskEnd)
  | endless
  deriving DecidableEq, Repr

/-- A task of a set. -/
inductive Task where
  | plain (w : Work)
  /-- A task that is cut off when the set is cancelled. -/
  | cancellable (w : Work)
  /-- A task that passes on every delivery of a signal. -/
  | relay
  /-- The task that cancels the set when the process is told to end. -/
  | signalHandler
  deriving DecidableEq, Repr

/-- How a task can end. -/
def Task.ending : Task → Bool → Option TaskEnd
  | .plain (.atOnce e), _ => some e
  | .plain (.onCancel e), true => some e
  | .plain _, _ => none
  | .cancellable (.atOnce e), _ => some e
  | .cancellable _, cancelled => if cancelled then some .clean else none
  | .relay, cancelled => if cancelled then some .clean else none
  | .signalHandler, cancelled => if cancelled then some .clean else none

namespace TaskSet

/-- How often deliveries of a signal are passed on. -/
def relayed (s : TaskSet Task) (deliveries : Nat) : Nat := s.running.count .relay * deliveries

/-- The process is told to end. -/
def terminate (s : TaskSet Task) : TaskSet Task :=
  if s.running.contains .signalHandler then s.cancel else s

end TaskSet

end LeaseKeeper
