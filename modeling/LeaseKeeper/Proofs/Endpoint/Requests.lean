/-
The loop that keeps the endpoints in step loses no request.

Requests, a cancellation and the steps of the loop may come in any order.  A run keeps a record of
what has happened, and `InStep` says what the state of the loop has to do with that record.

* `UpkeepRun.perform`, `UpkeepRun.performAll` — the moves of a run, with the record;
* `InStep` — which targets have been reconciled, which requests have been served, and what the pool
  has been through;
* `Change` — everything that a move can lead to; `Change.targets`, `Change.permits` and the others
  say what none of it loses;
* `inStep_perform`, `inStep_performAll` — every move keeps the loop in step, and so every run does;
* `exists_goOnFor`, `next?_goOnFor` — left to itself, the loop makes moves until it waits or has
  ended; `exists_runUntil` is the same for a rehearsal, whose reconciliations take time;
* `no_request_lost` — all that together.

Design notes: a request that finds the loop waiting wakes it, and is then no stored one; when the
loop takes it, the record says so, as it does for a stored one.
-/
import LeaseKeeper.Endpoint.UpkeepRehearsal
import LeaseKeeper.Proofs.Endpoint.Lifetimes

namespace LeaseKeeper

namespace Upkeep

/-- What others, and the loop itself, can do next. -/
inductive Move where
  | request
  | cancel
  | turn (endFirst : Bool)
  | read (answer : Option (List Address))
  | complete (o : Outcomes)

/-- Whether a move is one of the loop itself. -/
def Move.isOwn : Move → Bool
  | .request | .cancel => false
  | .turn _ | .read _ | .complete _ => true

inductive Event where
  | requested
  | cancelled
  /-- The loop has taken a request. -/
  | taken
  | asked (answer : Option (List Address))
  | reconciled (target : List Address) (o : Outcomes)
  | shutDown (o : Outcomes)

def move (u : Upkeep) : Move → Upkeep
  | .request => u.request
  | .cancel => u.cancel
  | .turn endFirst => u.turn endFirst
  | .read answer => u.read answer
  | .complete o => u.complete o

/-- What happens in a move.  A step that the loop cannot make in its phase is nothing. -/
def event? (u : Upkeep) : Move → Option Event
  | .request => some .requested
  | .cancel => some .cancelled
  | .turn endFirst =>
    if u.phase ≠ .reading ∧ (u.turn endFirst).phase = .reading then some .taken else none
  | .read answer => if u.phase = .reading then some (.asked answer) else none
  | .complete o =>
    match u.phase with
    | .reconciling target => some (.reconciled target o)
    | .closing => some (.shutDown o)
    | _ => none

/-- What an event does to the pool. -/
def Event.act (p : EndpointPool) : Event → EndpointPool
  | .reconciled target o => (p.reconcile o target).1
  | .shutDown o => (p.shutdown o).1
  | .requested | .cancelled | .taken | .asked _ => p

def Event.isRequest : Event → Bool
  | .requested => true
  | _ => false

def Event.isTaking : Event → Bool
  | .taken => true
  | _ => false

def Event.isAsking : Event → Bool
  | .asked _ => true
  | _ => false

/-- The addresses that the source has named, each time that it could. -/
def answers (events : List Event) : List (List Address) :=
  events.filterMap fun
    | .asked answer => answer
    | _ => none

/-- The targets of the reconciliations that have been made. -/
def targets (events : List Event) : List (List Address) :=
  events.filterMap fun
    | .reconciled target _ => some target
    | _ => none

/-- After each request the source has been asked. -/
def Served (events : List Event) : Prop :=
  ∀ before rest, events = before ++ .requested :: rest → ∃ answer, .asked answer ∈ rest

/-- The target of the reconciliation that is going on. -/
def Phase.target? : Phase → Option (List Address)
  | .reconciling target => some target
  | _ => none

/-- Whether the loop has seen that it is cancelled. -/
def Phase.ends : Phase → Bool
  | .closing | .closed => true
  | _ => false

/-- The number of requests that are there for the loop to take. -/
def permits (u : Upkeep) : Nat :=
  (if u.stored then 1 else 0) + if u.phase = .woken then 1 else 0

/-- The number of requests that have been taken, but with which the source has not been asked. -/
def Phase.pending (phase : Phase) : Nat := if phase = .reading then 1 else 0

/-- How the state of a loop fits what has happened since it began with `initial`. -/
structure InStep (initial : List Address) (u : Upkeep) (events : List Event) : Prop where
  /-- The first reconciliation is against `initial`, and then there is one for each time that the
  source has named addresses, in the same order; the last one may be still going on. -/
  targets : targets events ++ u.phase.target?.toList = initial :: answers events
  /-- Nothing but these reconciliations, and the shutdown, changes the pool. -/
  pool : events.foldl Event.act .empty = u.pool
  asked : events.countP Event.isAsking = u.asked
  /-- The source is asked once for each request that is taken. -/
  taken : events.countP Event.isTaking = u.asked + u.phase.pending
  /-- No request is taken twice. -/
  requested : events.countP Event.isTaking + u.permits ≤ events.countP Event.isRequest
  /-- If no request is there or has been taken just now, and the loop does not end, the source has
  been asked after every request. -/
  served : u.permits = 0 → u.phase.pending = 0 → u.phase.ends = false → Served events
  waiting : u.phase = .waiting → u.permits = 0
  cancelled : u.cancelled = true ↔ .cancelled ∈ events
  ending : u.phase.ends = true → u.cancelled = true
  /-- When the loop has ended, the pool has been shut down and no endpoint is left. -/
  closed : u.phase = .closed → (∃ o, .shutDown o ∈ events) ∧ u.pool.live = []

/-- Everything that a move can lead to: what happens, and the state then. -/
inductive Change (u : Upkeep) : Option Event → Upkeep → Prop
  | nothing : Change u none u
  | wakes : u.phase = .waiting → Change u (some .requested) { u with phase := .woken }
  | stores : u.phase ≠ .waiting → Change u (some .requested) { u with stored := true }
  | cancels : Change u (some .cancelled) { u with cancelled := true }
  | waits : u.phase = .idle ∨ u.phase = .waiting → u.stored = false → u.cancelled = false →
    Change u none { u with phase := .waiting }
  | wakesUp : u.phase = .woken → Change u (some .taken) { u with phase := .reading }
  | takes : u.phase = .idle ∨ u.phase = .waiting → u.stored = true →
    Change u (some .taken) { u with phase := .reading, stored := false }
  | closes : u.phase = .idle ∨ u.phase = .waiting ∨ u.phase = .woken → u.cancelled = true →
    Change u none { u with phase := .closing }
  | learns (target : List Address) : u.phase = .reading → Change u (some (.asked (some target)))
    { u with phase := .reconciling target, asked := u.asked + 1 }
  | learnsNothing : u.phase = .reading →
    Change u (some (.asked none)) { u with phase := .idle, asked := u.asked + 1 }
  | reconciles (target : List Address) (o : Outcomes) : u.phase = .reconciling target →
    Change u (some (.reconciled target o))
      { u with pool := (u.pool.reconcile o target).1, phase := .idle }
  | shutsDown (o : Outcomes) : u.phase = .closing →
    Change u (some (.shutDown o)) { u with pool := (u.pool.shutdown o).1, phase := .closed }

variable {initial : List Address} {u v : Upkeep} {events : List Event} {e : Event}
  {e? : Option Event}

/-! ### Requests that have been served -/

theorem Served.append (h : Served events) (he : e.isRequest = false) : Served (events ++ [e]) := by
  intro before rest hsplit
  rcases List.eq_nil_or_concat rest with rfl | ⟨rest, last, rfl⟩
  · -- The request would be the new event.
    obtain ⟨-, hlast⟩ := List.append_inj' hsplit rfl
    cases hlast
    cases he
  · rw [List.concat_eq_append, ← List.cons_append, ← List.append_assoc] at hsplit
    obtain ⟨hevents, -⟩ := List.append_inj' hsplit rfl
    obtain ⟨answer, hmem⟩ := h before rest hevents
    refine ⟨answer, ?_⟩
    rw [List.concat_eq_append]
    exact List.mem_append_left _ hmem

theorem served_asked (events : List Event) (answer : Option (List Address)) :
    Served (events ++ [.asked answer]) := by
  intro before rest hsplit
  rcases List.eq_nil_or_concat rest with rfl | ⟨rest, last, rfl⟩
  · obtain ⟨-, hlast⟩ := List.append_inj' hsplit rfl
    cases hlast
  · rw [List.concat_eq_append, ← List.cons_append, ← List.append_assoc] at hsplit
    obtain ⟨-, hlast⟩ := List.append_inj' hsplit rfl
    cases hlast
    refine ⟨answer, ?_⟩
    rw [List.concat_eq_append]
    exact List.mem_append_right _ List.mem_cons_self

/-! ### Moves as changes -/

theorem turn_of_looking (h : u.phase = .idle ∨ u.phase = .waiting) (endFirst : Bool) :
    u.turn endFirst =
      if u.cancelled && (endFirst || !u.stored) then { u with phase := .closing }
      else if u.stored then { u with phase := .reading, stored := false }
      else { u with phase := .waiting } := by
  rcases h with h | h <;> simp [turn, h]

theorem change_of_looking (h : u.phase = .idle ∨ u.phase = .waiting) (endFirst : Bool) :
    Change u (u.event? (.turn endFirst)) (u.turn endFirst) := by
  have hphase : u.phase ≠ .reading := by rcases h with h | h <;> simp [h]
  rw [event?, turn_of_looking h]
  by_cases hends : (u.cancelled && (endFirst || !u.stored)) = true
  · rw [if_pos hends, if_neg fun hand => nomatch hand.2]
    exact .closes (h.imp_right .inl) (Bool.and_eq_true_iff.mp hends).1
  · rw [if_neg hends]
    by_cases hstored : u.stored = true
    · rw [if_pos hstored, if_pos ⟨hphase, rfl⟩]
      exact .takes h hstored
    · rw [if_neg hstored, if_neg fun hand => nomatch hand.2]
      have hnot : u.stored = false := Bool.eq_false_iff.mpr hstored
      have hcancelled : u.cancelled = false := by simpa [hnot] using hends
      exact .waits h hnot hcancelled

theorem change_turn (u : Upkeep) (endFirst : Bool) :
    Change u (u.event? (.turn endFirst)) (u.turn endFirst) := by
  obtain ⟨pool, phase, stored, cancelled, asked⟩ := u
  cases phase with
  | idle => exact change_of_looking (.inl rfl) endFirst
  | waiting => exact change_of_looking (.inr rfl) endFirst
  | woken =>
    cases cancelled <;> cases endFirst
    · exact .wakesUp rfl
    · exact .wakesUp rfl
    · exact .wakesUp rfl
    · exact .closes (.inr (.inr rfl)) rfl
  | _ => exact .nothing

theorem change_move (u : Upkeep) (m : Move) : Change u (u.event? m) (u.move m) := by
  cases m with
  | request =>
    by_cases hphase : u.phase = .waiting
    · have hmove : u.move .request = { u with phase := .woken } := if_pos hphase
      rw [hmove]
      exact .wakes hphase
    · have hmove : u.move .request = { u with stored := true } := if_neg hphase
      rw [hmove]
      exact .stores hphase
  | cancel => exact .cancels
  | turn endFirst => exact change_turn u endFirst
  | read answer =>
    obtain ⟨pool, phase, stored, cancelled, asked⟩ := u
    cases phase with
    | reading =>
      cases answer with
      | some target => exact .learns target rfl
      | none => exact .learnsNothing rfl
    | _ => exact .nothing
  | complete o =>
    obtain ⟨pool, phase, stored, cancelled, asked⟩ := u
    cases phase with
    | reconciling target => exact .reconciles target o rfl
    | closing => exact .shutsDown o rfl
    | _ => exact .nothing

/-! ### What a change does not lose -/

/-- A target that has been named is reconciled next. -/
theorem Change.targets (c : Change u e? v) :
    Upkeep.targets e?.toList ++ v.phase.target?.toList =
      u.phase.target?.toList ++ answers e?.toList := by
  cases c <;> grind [Upkeep.targets, answers, Phase.target?]

theorem Change.pool (c : Change u e? v) : e?.toList.foldl Event.act u.pool = v.pool := by
  cases c <;> rfl

theorem Change.asked (c : Change u e? v) :
    u.asked + e?.toList.countP Event.isAsking = v.asked := by
  cases c <;> rfl

theorem Change.taken (c : Change u e? v) :
    u.phase.pending + e?.toList.countP Event.isTaking =
      e?.toList.countP Event.isAsking + v.phase.pending := by
  cases c <;> grind [Phase.pending, Event.isTaking, Event.isAsking]

theorem Change.permits (c : Change u e? v) :
    e?.toList.countP Event.isTaking + v.permits ≤
      u.permits + e?.toList.countP Event.isRequest := by
  cases c <;> grind [Upkeep.permits, Event.isTaking, Event.isRequest]

theorem Change.served (c : Change u e? v)
    (h : u.permits = 0 → u.phase.pending = 0 → u.phase.ends = false → Served events)
    (hpermits : v.permits = 0) (hpending : v.phase.pending = 0) (hends : v.phase.ends = false) :
    Served (events ++ e?.toList) := by
  cases c with
  | nothing => simpa using h hpermits hpending hends
  | wakes hphase => simp [Upkeep.permits] at hpermits
  | stores hphase => simp [Upkeep.permits] at hpermits
  | cancels => exact (h hpermits hpending hends).append rfl
  | waits hphase hstored hcancelled =>
    have hserved : Served events := by
      rcases hphase with hphase | hphase <;>
        exact h (by simp [Upkeep.permits, hstored, hphase]) (by simp [Phase.pending, hphase])
          (by simp [Phase.ends, hphase])
    simpa using hserved
  | wakesUp hphase => cases hpending
  | takes hphase hstored => cases hpending
  | closes hphase hcancelled => cases hends
  | learns target hphase => exact served_asked events (some target)
  | learnsNothing hphase => exact served_asked events none
  | reconciles target o hphase =>
    have hserved : Served events := by
      refine h ?_ (by simp [Phase.pending, hphase]) (by simp [Phase.ends, hphase])
      simpa [Upkeep.permits, hphase] using hpermits
    exact hserved.append rfl
  | shutsDown o hphase => cases hends

theorem Change.waiting (c : Change u e? v) (h : u.phase = .waiting → u.permits = 0)
    (hphase : v.phase = .waiting) : v.permits = 0 := by
  cases c with
  | nothing => exact h hphase
  | stores hne => exact absurd hphase hne
  | cancels => exact h hphase
  | waits hlooking hstored hcancelled => simp [Upkeep.permits, hstored]
  | _ => cases hphase

theorem Change.cancelled (c : Change u e? v) :
    v.cancelled = true ↔ u.cancelled = true ∨ .cancelled ∈ e?.toList := by
  cases c <;> simp

theorem Change.ending (c : Change u e? v) (h : u.phase.ends = true → u.cancelled = true)
    (hends : v.phase.ends = true) : v.cancelled = true := by
  cases c with
  | nothing => exact h hends
  | stores hne => exact h hends
  | cancels => rfl
  | closes hlooking hcancelled => exact hcancelled
  | shutsDown o hphase => exact h (by rw [hphase]; rfl)
  | _ => cases hends

theorem Change.closed (c : Change u e? v)
    (h : u.phase = .closed → (∃ o, .shutDown o ∈ events) ∧ u.pool.live = [])
    (hphase : v.phase = .closed) :
    (∃ o, .shutDown o ∈ events ++ e?.toList) ∧ v.pool.live = [] := by
  have hkept (hu : u.phase = .closed) :
      (∃ o, .shutDown o ∈ events ++ e?.toList) ∧ u.pool.live = [] := by
    obtain ⟨⟨o, hmem⟩, hlive⟩ := h hu
    exact ⟨⟨o, List.mem_append_left _ hmem⟩, hlive⟩
  cases c with
  | nothing => exact hkept hphase
  | stores hne => exact hkept hphase
  | cancels => exact hkept hphase
  | shutsDown o hclosing =>
    exact ⟨⟨o, List.mem_append_right _ List.mem_cons_self⟩, EndpointPool.live_shutdown u.pool o⟩
  | _ => cases hphase

/-! ### Runs -/

theorem inStep_start (initial : List Address) : InStep initial (start initial) [] where
  targets := rfl
  pool := rfl
  asked := rfl
  taken := rfl
  requested := Nat.le_refl 0
  served := by
    intro _ _ _ before rest hsplit
    cases before <;> cases hsplit
  waiting := nofun
  cancelled := iff_of_false nofun nofun
  ending := nofun
  closed := nofun

theorem InStep.change (h : InStep initial u events) (c : Change u e? v) :
    InStep initial v (events ++ e?.toList) where
  targets := by
    have htargets : Upkeep.targets (events ++ e?.toList) =
        Upkeep.targets events ++ Upkeep.targets e?.toList := List.filterMap_append
    have hanswers : answers (events ++ e?.toList) = answers events ++ answers e?.toList :=
      List.filterMap_append
    rw [htargets, hanswers, List.append_assoc, c.targets, ← List.append_assoc, h.targets]
    rfl
  pool := by rw [List.foldl_append, h.pool, c.pool]
  asked := by rw [List.countP_append, h.asked, c.asked]
  taken := by
    have hbefore := h.taken
    have hchange := c.taken
    have hasked := c.asked
    rw [List.countP_append]
    omega
  requested := by
    have hbefore := h.requested
    have hchange := c.permits
    rw [List.countP_append, List.countP_append]
    omega
  served := c.served h.served
  waiting := c.waiting h.waiting
  cancelled := by rw [c.cancelled, h.cancelled, List.mem_append]
  ending := c.ending h.ending
  closed := c.closed h.closed

/-! ### The loop left to itself -/

/-- The move that the loop goes on with. -/
def next? (u : Upkeep) (source : Option (List Address)) (o : Outcomes) : Option Move :=
  match u.phase with
  | .reconciling _ | .closing => some (.complete o)
  | .reading => some (.read source)
  | .idle | .woken => some (.turn true)
  | .waiting => if u.cancelled then some (.turn true) else none
  | .closed => none

theorem goOnFor_of_next? {source : Option (List Address)} {o : Outcomes} {m : Move}
    (h : u.next? source o = some m) (n : Nat) :
    goOnFor source o (n + 1) u = goOnFor source o n (u.move m) := by
  obtain ⟨pool, phase, stored, cancelled, asked⟩ := u
  cases phase with
  | waiting => cases cancelled <;> cases h; rfl
  | closed => cases h
  | _ => cases h; rfl

theorem goOnFor_of_next?_none {source : Option (List Address)} {o : Outcomes}
    (h : u.next? source o = none) (n : Nat) : goOnFor source o n u = u := by
  obtain ⟨pool, phase, stored, cancelled, asked⟩ := u
  cases n with
  | zero => rfl
  | succ n =>
    cases phase with
    | waiting => cases cancelled <;> cases h; rfl
    | closed => rfl
    | _ => cases h

theorem isOwn_next? {source : Option (List Address)} {o : Outcomes} {m : Move}
    (h : u.next? source o = some m) : m.isOwn = true := by
  obtain ⟨pool, phase, stored, cancelled, asked⟩ := u
  cases phase with
  | waiting => cases cancelled <;> cases h; rfl
  | closed => cases h
  | _ => cases h; rfl

theorem phase_of_next? {source : Option (List Address)} {o : Outcomes}
    (h : u.next? source o = none) :
    u.phase = .closed ∨ u.phase = .waiting ∧ u.cancelled = false := by
  obtain ⟨pool, phase, stored, cancelled, asked⟩ := u
  cases phase with
  | waiting => cases cancelled <;> cases h; exact .inr ⟨rfl, rfl⟩
  | closed => exact .inl rfl
  | _ => cases h

theorem cancelled_move {m : Move} (h : m.isOwn = true) : (u.move m).cancelled = u.cancelled := by
  have hnot : .cancelled ∉ (u.event? m).toList := by
    cases m with
    | request => cases h
    | cancel => cases h
    | turn endFirst =>
      rw [event?]
      split <;> simp
    | read answer =>
      rw [event?]
      split <;> simp
    | complete o =>
      rw [event?]
      split <;> simp
  rw [Bool.eq_iff_iff, (change_move u m).cancelled]
  exact or_iff_left hnot

/-- The number of steps after which nothing is left to do, if there are no new requests. -/
def stepsLeft (u : Upkeep) : Nat :=
  let idle := if u.cancelled then 2 else if u.stored then 4 else 1
  match u.phase with
  | .reconciling _ => idle + 1
  | .idle => idle
  | .waiting => if u.cancelled then 2 else 0
  | .woken => if u.cancelled then 2 else idle + 3
  | .reading => idle + 2
  | .closing => 1
  | .closed => 0

theorem stepsLeft_le (u : Upkeep) : u.stepsLeft ≤ 7 := by
  grind [stepsLeft]

theorem stepsLeft_next? {source : Option (List Address)} {o : Outcomes} {m : Move}
    (h : u.next? source o = some m) : (u.move m).stepsLeft < u.stepsLeft := by
  obtain ⟨pool, phase, stored, cancelled, asked⟩ := u
  cases phase with
  | closed => cases h
  | reading =>
    cases h
    cases source with
    | none => exact Nat.lt_add_of_pos_right Nat.two_pos
    | some target => exact Nat.add_lt_add_left Nat.one_lt_two _
  | waiting => cases cancelled <;> cases h; simp [stepsLeft, move, turn]
  | _ => cases h; cases cancelled <;> cases stored <;> simp [stepsLeft, move, turn, complete]

theorem next?_goOnFor {source : Option (List Address)} {o : Outcomes} {n : Nat}
    (h : u.stepsLeft ≤ n) : (goOnFor source o n u).next? source o = none := by
  induction n generalizing u with
  | zero =>
    cases hnext : u.next? source o with
    | none => exact hnext
    | some m =>
      have hlt := stepsLeft_next? hnext
      omega
  | succ n ih =>
    cases hnext : u.next? source o with
    | none =>
      rw [goOnFor_of_next?_none hnext]
      exact hnext
    | some m =>
      have hlt := stepsLeft_next? hnext
      rw [goOnFor_of_next? hnext]
      exact ih (by omega)

/-- The source is never asked more often than there were requests. -/
theorem InStep.asked_le (h : InStep initial u events) :
    u.asked ≤ events.countP Event.isRequest := by
  have htaken := h.taken
  have hrequested := h.requested
  omega

end Upkeep

/-- The loop, and what has happened so far. -/
structure UpkeepRun where
  upkeep : Upkeep
  events : List Upkeep.Event

namespace UpkeepRun

open Upkeep

def start (initial : List Address) : UpkeepRun := ⟨.start initial, []⟩

def perform (r : UpkeepRun) (m : Move) : UpkeepRun :=
  ⟨r.upkeep.move m, r.events ++ (r.upkeep.event? m).toList⟩

def performAll (r : UpkeepRun) (moves : List Move) : UpkeepRun := moves.foldl perform r

variable {initial : List Address} {r : UpkeepRun}

theorem inStep_perform (h : InStep initial r.upkeep r.events) (m : Move) :
    InStep initial (r.perform m).upkeep (r.perform m).events :=
  h.change (change_move r.upkeep m)

theorem inStep_performAll (h : InStep initial r.upkeep r.events) (moves : List Move) :
    InStep initial (r.performAll moves).upkeep (r.performAll moves).events := by
  induction moves generalizing r with
  | nil => exact h
  | cons m moves ih => exact ih (inStep_perform h m)

theorem exists_goOnFor (r : UpkeepRun) (source : Option (List Address)) (o : Outcomes) (n : Nat) :
    ∃ own, (∀ m ∈ own, m.isOwn = true) ∧
      (r.performAll own).upkeep = goOnFor source o n r.upkeep := by
  induction n generalizing r with
  | zero => exact ⟨[], nofun, rfl⟩
  | succ n ih =>
    cases hnext : r.upkeep.next? source o with
    | none =>
      rw [goOnFor_of_next?_none hnext]
      exact ⟨[], nofun, rfl⟩
    | some m =>
      obtain ⟨own, hown, hrun⟩ := ih (r.perform m)
      rw [goOnFor_of_next? hnext]
      refine ⟨m :: own, fun m' hm' => ?_, hrun⟩
      rcases List.mem_cons.mp hm' with rfl | hm'
      · exact isOwn_next? hnext
      · exact hown m' hm'

/-- A step of a rehearsal is a move, or a part of one that takes time. -/
theorem own_of_step? {u v : UpkeepRehearsal} {time : Nat} (h : u.step? time = some v) :
    v.upkeep = u.upkeep ∨ ∃ m : Move, m.isOwn = true ∧ v.upkeep = u.upkeep.move m := by
  rw [UpkeepRehearsal.step?] at h
  split at h
  · cases h
    exact .inl rfl
  · split at h
    · cases h
      exact .inl rfl
    · cases h
  · split at h
    · cases h
      exact .inr ⟨.complete _, rfl, rfl⟩
    · cases h
  · cases h
    exact .inr ⟨.read u.source, rfl, rfl⟩
  · split at h
    · cases h
      exact .inr ⟨.complete _, rfl, rfl⟩
    · cases h
  · cases h
    exact .inl rfl
  · cases h
  · dsimp only at h
    split at h
    · cases h
    · cases h
      exact .inr ⟨.turn true, rfl, rfl⟩

theorem exists_run {u : UpkeepRehearsal} (time n : Nat) (h : r.upkeep = u.upkeep) :
    ∃ own, (∀ m ∈ own, m.isOwn = true) ∧
      (r.performAll own).upkeep = (UpkeepRehearsal.run time n u).upkeep := by
  induction n generalizing r u with
  | zero => exact ⟨[], nofun, h⟩
  | succ n ih =>
    rw [UpkeepRehearsal.run]
    cases hstep : u.step? time with
    | none =>
      refine ⟨[.turn true], fun m hm => ?_, congrArg (Upkeep.turn · true) h⟩
      rw [List.mem_singleton.mp hm]
      rfl
    | some v =>
      rcases own_of_step? hstep with hsame | ⟨m, hown, hmove⟩
      · exact ih (h.trans hsame.symm)
      · obtain ⟨own, howns, hrun⟩ := ih (r := r.perform m) (h ▸ hmove.symm)
        refine ⟨m :: own, fun m' hm' => ?_, hrun⟩
        rcases List.mem_cons.mp hm' with rfl | hm'
        · exact hown
        · exact howns m' hm'

theorem exists_runUntil {u : UpkeepRehearsal} (time : Nat) (h : r.upkeep = u.upkeep) :
    ∃ own, (∀ m ∈ own, m.isOwn = true) ∧ (r.performAll own).upkeep = (u.runUntil time).upkeep :=
  exists_run time UpkeepRehearsal.enoughSteps h

theorem cancelled_performAll {own : List Move} (h : ∀ m ∈ own, m.isOwn = true) :
    (r.performAll own).upkeep.cancelled = r.upkeep.cancelled := by
  induction own generalizing r with
  | nil => rfl
  | cons m own ih =>
    have hmove : (r.perform m).upkeep.cancelled = r.upkeep.cancelled :=
      cancelled_move (h m List.mem_cons_self)
    exact (ih fun m' hm' => h m' (List.mem_cons_of_mem m hm')).trans hmove

/-- **The loop loses no request.**  Requests and a cancellation may come at any time and in any
number, the source may answer or fail each time, endpoints may end by themselves, and stops and
binds may fail; if the loop could as well end as take a request, it does either.  After any such
moves, the loop is in step with what has happened, and the source has not been asked more often than
there were requests.  From there, the loop can go on by itself: if it is cancelled it ends, and if
not, it comes to where it waits, and then the source has been asked after every request. -/
theorem no_request_lost (initial : List Address) (moves : List Move) :
    let r := (start initial).performAll moves
    InStep initial r.upkeep r.events ∧ r.upkeep.asked ≤ r.events.countP Event.isRequest ∧
    ∀ source o, ∃ own, (∀ m ∈ own, m.isOwn = true) ∧
      let s := r.performAll own
      s.upkeep = r.upkeep.goOn source o ∧ InStep initial s.upkeep s.events ∧
      (r.upkeep.cancelled = true → s.upkeep.phase = .closed) ∧
      (r.upkeep.cancelled = false → s.upkeep.phase = .waiting ∧ Served s.events) := by
  intro r
  have hr : InStep initial r.upkeep r.events := inStep_performAll (inStep_start initial) moves
  refine ⟨hr, hr.asked_le, fun source o => ?_⟩
  obtain ⟨own, hown, hrun⟩ := exists_goOnFor r source o 8
  have hs := inStep_performAll hr own
  have hcancelled := cancelled_performAll hown (r := r)
  have hnext : (r.performAll own).upkeep.next? source o = none := by
    rw [hrun]
    exact next?_goOnFor (Nat.le_succ_of_le (stepsLeft_le r.upkeep))
  have hends := phase_of_next? hnext
  refine ⟨own, hown, hrun, hs, fun hc => ?_, fun hc => ?_⟩
  · rcases hends with hphase | ⟨hphase, hnot⟩
    · exact hphase
    · rw [hcancelled, hc] at hnot
      cases hnot
  · rcases hends with hphase | ⟨hphase, -⟩
    · have hyes := hs.ending (by rw [hphase]; rfl)
      rw [hcancelled, hc] at hyes
      cases hyes
    · refine ⟨hphase, hs.served (hs.waiting hphase) ?_ ?_⟩
      · rw [hphase]
        rfl
      · rw [hphase]
        rfl

end UpkeepRun

end LeaseKeeper
