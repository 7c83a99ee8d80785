/-
A daemon, whatever happens to it.

Lease sets are handed in by any number of callers, files change, signals arrive, the tasks are
cancelled from outside, and each task makes one step after another, all in any order.  A run keeps a
record of what has happened, and `Accounted` says what the state of the daemon has to do with that
record.

* `DaemonRun.perform`, `DaemonRun.performAll` — the moves of a run, with the record;
* `Heeded` — a call has given up while the task that watches for this was there;
* `Daemon.Change` — everything that a move can lead to; `Change.fatal`, `Change.watch` and others
  say what none of it loses;
* `changes_perform` — a move is made up of such changes;
* `perform_changeLeases` — a call that nothing else comes between hands its set in and, if that is
  refused, gives up;
* `accounted_perform`, `accounted_performAll` — every move keeps the state accounted for, and so
  every run does;
* `refused_of_gaveUp` — a call that gives up has been refused before;
* `start_eq_ok` — what a daemon is like when it has started.

Design notes: a call that hands a set in can be one move, and it can be two, since others may go on
between the failure and the report of it.  What a task does between two waits is one move.  The
upkeep and the watch end only as their code has it; the tasks that wait for signals may also end for
reasons of the system's, so that a run can contain any end of those.
-/
import LeaseKeeper.Daemon.Process
import LeaseKeeper.Proofs.Daemon.TaskSet
import LeaseKeeper.Proofs.Endpoint.Requests

namespace LeaseKeeper

/-- Whether a task waits for signals, so that it can end for reasons that are not the daemon's. -/
def DaemonTask.awaitsSignal : DaemonTask → Bool
  | .relay | .signalHandler => true
  | .upkeep | .fatalWatch => false

namespace Daemon

/-- What others, and the tasks themselves, can do next. -/
inductive Move where
  /-- A call hands a lease set in and returns. -/
  | changeLeases (now : Instant) (s : LeaseSet) (mishap : Option Mishap)
    (answers : Answers FileSystem)
  /-- A call hands a lease set in, which is to be made durable. -/
  | commit (now : Instant) (s : LeaseSet) (mishap : Option Mishap) (answers : Answers FileSystem)
  /-- A call whose set could not be made durable gives up and returns. -/
  | giveUp
  | changeFiles (files : FileSystem)
  | cancel
  | terminate
  | request
  | reconfigure
  /-- The upkeep of the endpoints makes a step of its own. -/
  | keepUp (m : Upkeep.Move)
  /-- The task at a place ends, if it can. -/
  | finish (i : Nat)
  /-- The task at a place ends for reasons of its own. -/
  | breakOff (i : Nat) (e : TaskEnd)
  /-- One of the tasks that have ended is joined. -/
  | join (i : Nat)

/-- Whether a move is one of the tasks themselves, or of the one who joins them. -/
def Move.isOwn : Move → Bool
  | .keepUp _ | .finish _ | .join _ => true
  | _ => false

inductive Event where
  | committed (result : Except StoreError LeaseSet)
  | gaveUp
  | upkeep (e : Upkeep.Event)
  | ended (t : DaemonTask) (e : TaskEnd)

def Event.isRefusal : Event → Bool
  | .committed (.error _) => true
  | _ => false

def Event.isGivingUp : Event → Bool
  | .gaveUp => true
  | _ => false

/-- No more calls have given up than have been refused. -/
def Justified (events : List Event) : Prop :=
  events.countP Event.isGivingUp ≤ events.countP Event.isRefusal

/-- What has happened to the upkeep of the endpoints. -/
def upkeepEvents (events : List Event) : List Upkeep.Event :=
  events.filterMap fun
    | .upkeep e => some e
    | _ => none

/-- A call has given up before the task that watches for this has ended. -/
def Heeded (events : List Event) : Prop :=
  ∃ before rest, events = before ++ .gaveUp :: rest ∧ ∀ e, .ended .fatalWatch e ∉ before

/-- How the state of a daemon fits what has happened since it began with its tasks and `initial`. -/
structure Accounted (tasks : List DaemonTask) (initial : List Address) (d : Daemon)
    (events : List Event) : Prop where
  upkeep : Upkeep.InStep initial d.upkeep (upkeepEvents events)
  fatal : d.fatal = true ↔ .gaveUp ∈ events
  running : ∀ t, t ∈ d.tasks.running ↔ t ∈ tasks ∧ ∀ e, .ended t e ∉ events
  nodup : d.tasks.running.Nodup
  /-- The upkeep ends when it has shut the pool down. -/
  closed : ∀ e, .ended .upkeep e ∈ events → e = .clean ∧ d.upkeep.phase = .closed
  /-- The watch fails if a call has given up by then, and else it ends when it is cancelled. -/
  watch : ∀ e, .ended .fatalWatch e ∈ events →
    e = .failure ∧ Heeded events ∨ e = .clean ∧ ¬Heeded events ∧ d.tasks.cancelled = true
  /-- What goes wrong with a task is on record until it is joined, and then the set has failed. -/
  faults : (d.tasks.failed = true ∨ ∃ e ∈ d.tasks.ended, e ≠ .clean) ↔
    ∃ t e, .ended t e ∈ events ∧ e ≠ .clean
  cancelled : d.tasks.failed = true → d.tasks.cancelled = true

/-- Everything that a move can lead to: what happens, and the state then. -/
inductive Change (d : Daemon) : List Event → Daemon → Prop
  | nothing : Change d [] d
  | commits (result : Except StoreError LeaseSet) (store : LeaseStore) (gauge : Nat) :
    Change d [.committed result] { d with store, gauge }
  | givesUp : Change d [.gaveUp] d.giveUp
  | cancels : Change d [] d.cancel
  | keepsUp (m : Upkeep.Move) : m = .request ∨ .upkeep ∈ d.tasks.running →
    Change d ((d.upkeep.event? m).map Event.upkeep).toList { d with upkeep := d.upkeep.move m }
  | ends (i : Nat) (t : DaemonTask) (e : TaskEnd) : d.tasks.running[i]? = some t →
    d.ending t d.tasks.cancelled = some e ∨ t.awaitsSignal = true →
    Change d [.ended t e]
      { d with
        tasks := { d.tasks with
          running := d.tasks.running.eraseIdx i
          ended := d.tasks.ended ++ [e] } }
  | joins (i : Nat) (e : TaskEnd) : d.tasks.ended[i]? = some e →
    Change d [] { d with
      tasks := { d.tasks with ended := d.tasks.ended.eraseIdx i }.record e }

/-- Changes one after another, with all that has happened. -/
inductive Changes (d : Daemon) (events : List Event) : Daemon → List Event → Prop
  | refl : Changes d events d events
  | step {d' d'' : Daemon} {events' es : List Event} : Changes d events d' events' →
    Change d' es d'' → Changes d events d'' (events' ++ es)

end Daemon

/-- A daemon, the files around it, and what has happened so far. -/
structure DaemonRun where
  daemon : Daemon
  files : FileSystem
  events : List Daemon.Event

namespace DaemonRun

open Daemon

def start (d : Daemon) (files : FileSystem) : DaemonRun := ⟨d, files, []⟩

/-- Whether there is a call that has failed and has not given up yet. -/
def owes (r : DaemonRun) : Bool :=
  r.events.countP Event.isGivingUp < r.events.countP Event.isRefusal

def request (r : DaemonRun) : DaemonRun :=
  { r with daemon := r.daemon.request, events := r.events ++ [.upkeep .requested] }

/-- The upkeep of the endpoints looks whether the tasks are cancelled. -/
def notice (r : DaemonRun) : DaemonRun :=
  { r with
    daemon := r.daemon.notice
    events := r.events ++ if r.daemon.tasks.cancelled then [.upkeep .cancelled] else [] }

/-- The upkeep of the endpoints makes a step. -/
def keepUp (r : DaemonRun) (m : Upkeep.Move) : DaemonRun :=
  { r with
    daemon := { r.daemon with upkeep := r.daemon.upkeep.move m }
    events := r.events ++ ((r.daemon.upkeep.event? m).map Event.upkeep).toList }

/-- The task at a place ends as `ending` says, if that says how. -/
def finish (r : DaemonRun) (ending : DaemonTask → Bool → Option TaskEnd) (i : Nat) : DaemonRun :=
  { r with
    daemon := { r.daemon with tasks := (r.daemon.tasks.endAt? ending i).getD r.daemon.tasks }
    events := r.events ++ (r.daemon.tasks.running[i]?.bind fun t =>
      (ending t r.daemon.tasks.cancelled).map (Event.ended t)).toList }

def perform (r : DaemonRun) : Move → DaemonRun
  | .changeLeases now s mishap answers =>
    let (o, daemon) := r.daemon.changeLeases now s r.files mishap answers
    { daemon
      files := o.world
      events := r.events ++ .committed o.result :: if o.result.isOk then [] else [.gaveUp] }
  | .commit now s mishap answers =>
    let (o, daemon) := r.daemon.commit now s r.files mishap answers
    { daemon, files := o.world, events := r.events ++ [.committed o.result] }
  | .giveUp =>
    if r.owes then { r with daemon := r.daemon.giveUp, events := r.events ++ [.gaveUp] } else r
  | .changeFiles files => { r with files }
  | .cancel => { r with daemon := r.daemon.cancel }
  | .terminate => { r with daemon := r.daemon.terminate }
  | .request => r.request
  | .reconfigure => if r.daemon.tasks.running.contains .relay then r.request else r
  | .keepUp m =>
    if r.daemon.tasks.running.contains .upkeep && m.isOwn then r.notice.keepUp m else r
  | .finish i => r.finish r.daemon.ending i
  | .breakOff i e => r.finish (fun t _ => if t.awaitsSignal then some e else none) i
  | .join i =>
    { r with daemon := { r.daemon with tasks := (r.daemon.tasks.joinAt? i).getD r.daemon.tasks } }

def performAll (r : DaemonRun) (moves : List Move) : DaemonRun := moves.foldl perform r

end DaemonRun

namespace Daemon

variable {tasks : List DaemonTask} {initial : List Address} {d d' : Daemon}
  {events es : List Event} {t : DaemonTask} {e : TaskEnd}

/-! ### Calls that have been heeded -/

theorem heeded_append : Heeded (events ++ es) ↔
    Heeded events ∨ (∀ e, .ended .fatalWatch e ∉ events) ∧ Heeded es := by
  constructor
  · rintro ⟨before, rest, hsplit, hwatch⟩
    rcases List.append_eq_append_iff.mp hsplit with ⟨mid, rfl, hmid⟩ | ⟨mid, rfl, hmid⟩
    · refine .inr ⟨fun e hmem => hwatch e (List.mem_append_left _ hmem), mid, rest, hmid, ?_⟩
      exact fun e hmem => hwatch e (List.mem_append_right _ hmem)
    · cases mid with
      | nil =>
        rw [List.append_nil]
        exact .inr ⟨hwatch, [], rest, hmid.symm, fun _ => List.not_mem_nil⟩
      | cons event mid =>
        obtain ⟨rfl, -⟩ := List.cons.inj hmid
        exact .inl ⟨before, mid, rfl, hwatch⟩
  · rintro (⟨before, rest, rfl, hwatch⟩ | ⟨hwatch, before, rest, rfl, hbefore⟩)
    · exact ⟨before, rest ++ es, by rw [List.append_assoc, List.cons_append], hwatch⟩
    · refine ⟨events ++ before, rest, (List.append_assoc _ _ _).symm, fun e hmem => ?_⟩
      exact (List.mem_append.mp hmem).elim (hwatch e) (hbefore e)

theorem Heeded.gaveUp_mem (h : Heeded events) : .gaveUp ∈ events := by
  obtain ⟨before, rest, rfl, -⟩ := h
  exact List.mem_append_right _ List.mem_cons_self

/-- As long as the watch is there, it is enough that a call has given up. -/
theorem heeded_iff (h : ∀ e, .ended .fatalWatch e ∉ events) : Heeded events ↔ .gaveUp ∈ events := by
  refine ⟨Heeded.gaveUp_mem, fun hmem => ?_⟩
  obtain ⟨before, rest, rfl⟩ := List.append_of_mem hmem
  exact ⟨before, rest, rfl, fun e he => h e (List.mem_append_left _ he)⟩

/-- What has been heeded is known when the watch has ended. -/
theorem heeded_append_of_ended (h : .ended .fatalWatch e ∈ events) :
    Heeded (events ++ es) ↔ Heeded events := by
  rw [heeded_append]
  exact or_iff_left fun hwatch => hwatch.1 e h

theorem heeded_append_of_gaveUp_notMem (h : .gaveUp ∉ es) :
    Heeded (events ++ es) ↔ Heeded events := by
  rw [heeded_append]
  exact or_iff_left fun hheeded => h hheeded.2.gaveUp_mem

end Daemon

namespace Daemon

variable {tasks : List DaemonTask} {initial : List Address} {d d' : Daemon}
  {events es : List Event} {t : DaemonTask} {e : TaskEnd}

/-! ### What a change does not lose -/

theorem upkeepEvents_append :
    upkeepEvents (events ++ es) = upkeepEvents events ++ upkeepEvents es :=
  List.filterMap_append

theorem Change.upkeep (c : Change d es d')
    (h : Upkeep.InStep initial d.upkeep (upkeepEvents events)) :
    Upkeep.InStep initial d'.upkeep (upkeepEvents (events ++ es)) := by
  rw [upkeepEvents_append]
  cases c with
  | keepsUp m hm =>
    have hevents : upkeepEvents ((d.upkeep.event? m).map Event.upkeep).toList =
        (d.upkeep.event? m).toList := by
      cases d.upkeep.event? m <;> rfl
    rw [hevents]
    exact h.change (Upkeep.change_move d.upkeep m)
  | _ =>
    show Upkeep.InStep initial d.upkeep (upkeepEvents events ++ [])
    rwa [List.append_nil]

theorem Change.fatal (c : Change d es d') : d'.fatal = true ↔ d.fatal = true ∨ .gaveUp ∈ es := by
  cases c <;> simp [giveUp, cancel]

theorem mem_eraseIdx_iff_of_nodup {α : Type} {l : List α} {i : Nat} {a b : α} (hl : l.Nodup)
    (ha : l[i]? = some a) : b ∈ l.eraseIdx i ↔ b ∈ l ∧ b ≠ a := by
  rw [List.mem_eraseIdx_iff_getElem?]
  constructor
  · rintro ⟨j, hj, hb⟩
    refine ⟨List.mem_of_getElem? hb, ?_⟩
    rintro rfl
    exact hj ((List.getElem?_inj (List.getElem?_eq_some_iff.mp hb).1 hl).mp (hb.trans ha.symm))
  · rintro ⟨hb, hne⟩
    obtain ⟨j, hj⟩ := List.mem_iff_getElem?.mp hb
    refine ⟨j, ?_, hj⟩
    rintro rfl
    exact hne (Option.some.inj (hj.symm.trans ha))

theorem mem_iff_of_getElem? {α : Type} {l : List α} {i : Nat} {a b : α} (ha : l[i]? = some a) :
    b ∈ l ↔ b ∈ l.eraseIdx i ∨ b = a := by
  rw [List.mem_eraseIdx_iff_getElem?]
  constructor
  · intro hb
    obtain ⟨j, hj⟩ := List.mem_iff_getElem?.mp hb
    by_cases hji : j = i
    · rw [hji, ha] at hj
      exact .inr (Option.some.inj hj).symm
    · exact .inl ⟨j, hji, hj⟩
  · rintro (⟨j, -, hj⟩ | rfl)
    · exact List.mem_of_getElem? hj
    · exact List.mem_of_getElem? ha

theorem Change.running (c : Change d es d') (h : d.tasks.running.Nodup) (t : DaemonTask) :
    t ∈ d'.tasks.running ↔ t ∈ d.tasks.running ∧ ∀ e, .ended t e ∉ es := by
  cases c with
  | keepsUp m hm => simp
  | ends i t' e' ht' he' =>
    show t ∈ d.tasks.running.eraseIdx i ↔ _
    rw [mem_eraseIdx_iff_of_nodup h ht']
    refine and_congr_right fun _ => ⟨fun hne e hmem => ?_, fun hnot heq => ?_⟩
    · cases List.mem_singleton.mp hmem
      exact hne rfl
    · rw [heq] at hnot
      exact hnot e' List.mem_cons_self
  | joins i e' he' =>
    rw [TaskSet.running_record]
    simp
  | _ => simp [giveUp, cancel, TaskSet.cancel]

theorem Change.nodup (c : Change d es d') (h : d.tasks.running.Nodup) :
    d'.tasks.running.Nodup := by
  cases c with
  | ends i t e ht he => exact h.eraseIdx i
  | joins i e he =>
    rw [TaskSet.running_record]
    exact h
  | _ => exact h

/-- Nothing undoes a cancellation. -/
theorem Change.cancelled_mono (c : Change d es d') (h : d.tasks.cancelled = true) :
    d'.tasks.cancelled = true := by
  cases c with
  | cancels => rfl
  | joins i e he => exact (TaskSet.cancelled_record _ _).mpr (.inl h)
  | _ => exact h

theorem ending_upkeep_eq_some {cancelled : Bool} :
    d.ending .upkeep cancelled = some e ↔ d.upkeep.phase = .closed ∧ e = .clean := by
  rw [ending]
  split
  · next hphase => simp [hphase, eq_comm]
  · next hphase => simp [hphase]

theorem ending_fatalWatch_eq_some {cancelled : Bool} : d.ending .fatalWatch cancelled = some e ↔
    d.fatal = true ∧ e = .failure ∨ ¬d.fatal = true ∧ cancelled = true ∧ e = .clean := by
  rw [ending]
  split
  · next hfatal => simp [hfatal, eq_comm]
  · next hfatal => cases cancelled <;> simp [hfatal, eq_comm]

/-- What is known of a task that ends. -/
theorem Change.of_ended (c : Change d es d') (h : .ended t e ∈ es) :
    es = [.ended t e] ∧ t ∈ d.tasks.running ∧
    (d.ending t d.tasks.cancelled = some e ∨ t.awaitsSignal = true) ∧
    d'.upkeep = d.upkeep ∧ d'.tasks.cancelled = d.tasks.cancelled := by
  cases c with
  | ends i t' e' ht he =>
    cases List.mem_singleton.mp h
    exact ⟨rfl, List.mem_of_getElem? ht, he, rfl, rfl⟩
  | keepsUp m hm => simp at h
  | _ => simp at h

theorem Change.closed (c : Change d es d')
    (hrunning : .upkeep ∈ d.tasks.running → ∀ e, .ended .upkeep e ∉ events)
    (h : ∀ e, .ended .upkeep e ∈ events → e = .clean ∧ d.upkeep.phase = .closed)
    (hmem : .ended .upkeep e ∈ events ++ es) : e = .clean ∧ d'.upkeep.phase = .closed := by
  rcases List.mem_append.mp hmem with hbefore | hnow
  · obtain ⟨he, hphase⟩ := h e hbefore
    refine ⟨he, ?_⟩
    cases c with
    | keepsUp m hm =>
      -- The loop itself makes no more steps, and a request does not reopen it.
      rcases hm with rfl | hm
      · show d.upkeep.request.phase = .closed
        simp [Upkeep.request, hphase]
      · exact absurd hbefore (hrunning hm e)
    | _ => exact hphase
  · obtain ⟨-, -, hending, hupkeep, -⟩ := c.of_ended hnow
    rcases hending with hending | hsignal
    · obtain ⟨hphase, he⟩ := ending_upkeep_eq_some.mp hending
      exact ⟨he, hupkeep ▸ hphase⟩
    · cases hsignal

theorem Change.watch (c : Change d es d')
    (hrunning : .fatalWatch ∈ d.tasks.running → ∀ e, .ended .fatalWatch e ∉ events)
    (hfatal : d.fatal = true ↔ .gaveUp ∈ events)
    (h : ∀ e, .ended .fatalWatch e ∈ events →
      e = .failure ∧ Heeded events ∨ e = .clean ∧ ¬Heeded events ∧ d.tasks.cancelled = true)
    (hmem : .ended .fatalWatch e ∈ events ++ es) :
    e = .failure ∧ Heeded (events ++ es) ∨
      e = .clean ∧ ¬Heeded (events ++ es) ∧ d'.tasks.cancelled = true := by
  rcases List.mem_append.mp hmem with hbefore | hnow
  · rw [heeded_append_of_ended hbefore]
    exact (h e hbefore).imp_right (.imp_right (.imp_right c.cancelled_mono))
  · obtain ⟨rfl, hmem, hending, -, hcancelled⟩ := c.of_ended hnow
    -- The watch ends now, so a call has been heeded if one has given up at all.
    have hheeded : Heeded (events ++ [.ended .fatalWatch e]) ↔ d.fatal = true := by
      rw [heeded_append_of_gaveUp_notMem (by simp), hfatal]
      exact heeded_iff (hrunning hmem)
    rw [hheeded, hcancelled]
    rcases hending with hending | hsignal
    · rcases ending_fatalWatch_eq_some.mp hending with ⟨hgone, he⟩ | ⟨hnot, hyes, he⟩
      · exact .inl ⟨he, hgone⟩
      · exact .inr ⟨he, hnot, hyes⟩
    · cases hsignal

theorem Change.faults (c : Change d es d') :
    (d'.tasks.failed = true ∨ ∃ e ∈ d'.tasks.ended, e ≠ .clean) ↔
      (d.tasks.failed = true ∨ ∃ e ∈ d.tasks.ended, e ≠ .clean) ∨
        ∃ t e, .ended t e ∈ es ∧ e ≠ .clean := by
  cases c with
  | ends i t e ht he =>
    have hnew : (∃ t' e', Event.ended t' e' ∈ [Event.ended t e] ∧ e' ≠ .clean) ↔ e ≠ .clean := by
      constructor
      · rintro ⟨t', e', hmem, hne⟩
        cases List.mem_singleton.mp hmem
        exact hne
      · exact fun hne => ⟨t, e, List.mem_cons_self, hne⟩
    rw [hnew]
    simp [or_assoc, or_and_right, exists_or]
  | joins i e he =>
    rw [TaskSet.failed_record, TaskSet.ended_record]
    simp only [mem_iff_of_getElem? he, or_and_right, exists_or, exists_eq_left, List.not_mem_nil,
      false_and, exists_false, or_false]
    rw [or_assoc, or_comm (a := e ≠ .clean)]
  | _ => simp [giveUp, cancel, TaskSet.cancel]

/-- What makes the set fail cancels it, too. -/
theorem Change.cancelled (c : Change d es d')
    (h : d.tasks.failed = true → d.tasks.cancelled = true) (hfailed : d'.tasks.failed = true) :
    d'.tasks.cancelled = true := by
  cases c with
  | cancels => rfl
  | joins i e he =>
    rw [TaskSet.cancelled_record]
    exact ((TaskSet.failed_record _ _).mp hfailed).imp_left h
  | _ => exact h hfailed

theorem Accounted.change (h : Accounted tasks initial d events) (c : Change d es d') :
    Accounted tasks initial d' (events ++ es) where
  upkeep := c.upkeep h.upkeep
  fatal := by rw [c.fatal, h.fatal, List.mem_append]
  running t := by
    rw [c.running h.nodup, h.running, and_assoc, ← forall_and]
    simp only [List.mem_append, not_or]
  nodup := c.nodup h.nodup
  closed e hmem := c.closed (fun hrunning => ((h.running _).mp hrunning).2) h.closed hmem
  watch e hmem := c.watch (fun hrunning => ((h.running _).mp hrunning).2) h.fatal h.watch hmem
  faults := by
    rw [c.faults, h.faults]
    simp only [List.mem_append, or_and_right, exists_or]
  cancelled := c.cancelled h.cancelled

theorem Accounted.exists_ended (h : Accounted tasks initial d events) (ht : t ∈ tasks)
    (hnot : t ∉ d.tasks.running) : ∃ e, .ended t e ∈ events := by
  refine Classical.byContradiction fun hnone => hnot ?_
  exact (h.running t).mpr ⟨ht, not_exists.mp hnone⟩

/-- When all tasks are joined, nothing makes the set fail any more. -/
theorem Change.joined (c : Change d es d') (hrunning : d.tasks.running = [])
    (hended : d.tasks.ended = []) :
    d'.tasks.running = [] ∧ d'.tasks.ended = [] ∧ d'.tasks.failed = d.tasks.failed := by
  cases c with
  | ends i t e ht he =>
    rw [hrunning] at ht
    cases ht
  | joins i e he =>
    rw [hended] at he
    cases he
  | _ => exact ⟨hrunning, hended, rfl⟩

theorem Changes.silent (c : Change d [] d') : Changes d events d' events := by
  have hstep : Changes d events d' (events ++ []) := .step .refl c
  rwa [List.append_nil] at hstep

theorem Changes.accounted {events' : List Event} (cs : Changes d events d' events')
    (h : Accounted tasks initial d events) : Accounted tasks initial d' events' := by
  induction cs with
  | refl => exact h
  | step _ c ih => exact ih.change c

theorem Changes.heeded {events' : List Event} (cs : Changes d events d' events')
    (h : Heeded events) : Heeded events' := by
  induction cs with
  | refl => exact h
  | step _ _ ih => exact heeded_append.mpr (.inl ih)

theorem Changes.joined {events' : List Event} (cs : Changes d events d' events')
    (hrunning : d.tasks.running = []) (hended : d.tasks.ended = []) :
    d'.tasks.running = [] ∧ d'.tasks.ended = [] ∧ d'.tasks.failed = d.tasks.failed := by
  induction cs with
  | refl => exact ⟨hrunning, hended, rfl⟩
  | step _ c ih =>
    obtain ⟨hrunning', hended', hfailed⟩ := ih
    obtain ⟨hlast, hjoined, hsame⟩ := c.joined hrunning' hended'
    exact ⟨hlast, hjoined, hsame.trans hfailed⟩

end Daemon

/-! ### Daemons that have started -/

namespace Setup

open Daemon

variable {s : Setup} {now : Instant} {source : SupplyAnswer} {fs tree : FileSystem} {d : Daemon}

theorem start_eq_ok (h : s.start now source fs = (.ok d, tree)) :
    ∃ store addresses, LeaseStore.ofStorage (fileStorage s.leaseFilePath) tree = .ok store ∧
      source = .ok addresses ∧ d = s.startWith now store addresses tree := by
  rw [start] at h
  split at h
  · cases h
  · split at h
    · cases h
    · cases h
    · next store addresses hstore =>
      cases h
      exact ⟨store, addresses, hstore, rfl, rfl⟩

theorem nodup_tasks (s : Setup) : s.tasks.Nodup := by
  rw [tasks]
  cases s.endsOnSignal <;> cases s.reconfiguresOnSignal <;> decide

theorem upkeep_mem_tasks (s : Setup) : .upkeep ∈ s.tasks := by simp [tasks]

theorem fatalWatch_mem_tasks (s : Setup) : .fatalWatch ∈ s.tasks := by simp [tasks]

theorem accounted_startWith (s : Setup) (now : Instant) (store : LeaseStore)
    (addresses : List Address) (fs : FileSystem) :
    Accounted s.tasks addresses (s.startWith now store addresses fs) [] where
  upkeep := Upkeep.inStep_start addresses
  fatal := iff_of_false nofun nofun
  running t := (and_iff_left fun _ => List.not_mem_nil).symm
  nodup := s.nodup_tasks
  closed := nofun
  watch := nofun
  faults := iff_of_false (by rintro (h | ⟨e, h, -⟩) <;> cases h) (by rintro ⟨t, e, h, -⟩; cases h)
  cancelled := nofun

end Setup

/-! ### Runs -/

namespace DaemonRun

open Daemon

variable {tasks : List DaemonTask} {initial : List Address} {r : DaemonRun}

theorem finish_of_ends {ending : DaemonTask → Bool → Option TaskEnd} {i : Nat} {t : DaemonTask}
    {e : TaskEnd} (ht : r.daemon.tasks.running[i]? = some t)
    (he : ending t r.daemon.tasks.cancelled = some e) :
    r.finish ending i =
      { r with
        daemon := { r.daemon with
          tasks := { r.daemon.tasks with
            running := r.daemon.tasks.running.eraseIdx i
            ended := r.daemon.tasks.ended ++ [e] } }
        events := r.events ++ [.ended t e] } := by
  simp [finish, TaskSet.endAt?, ht, he]

theorem finish_cases (r : DaemonRun) (ending : DaemonTask → Bool → Option TaskEnd) (i : Nat) :
    r.finish ending i = r ∨ ∃ t e, r.daemon.tasks.running[i]? = some t ∧
      ending t r.daemon.tasks.cancelled = some e := by
  cases ht : r.daemon.tasks.running[i]? with
  | none => exact .inl (by simp [finish, TaskSet.endAt?, ht])
  | some t =>
    cases he : ending t r.daemon.tasks.cancelled with
    | none => exact .inl (by simp [finish, TaskSet.endAt?, ht, he])
    | some e => exact .inr ⟨t, e, rfl, he⟩

theorem changes_finish {ending : DaemonTask → Bool → Option TaskEnd}
    (hending : ∀ t cancelled e, ending t cancelled = some e →
      r.daemon.ending t cancelled = some e ∨ t.awaitsSignal = true) (i : Nat) :
    Changes r.daemon r.events (r.finish ending i).daemon (r.finish ending i).events := by
  rcases r.finish_cases ending i with hsame | ⟨t, e, ht, he⟩
  · rw [hsame]
    exact .refl
  · rw [finish_of_ends ht he]
    exact .step .refl (.ends i t e ht (hending t _ e he))

theorem changes_notice (hrunning : .upkeep ∈ r.daemon.tasks.running) :
    Changes r.daemon r.events r.notice.daemon r.notice.events := by
  rw [notice, Daemon.notice]
  by_cases hcancelled : r.daemon.tasks.cancelled = true
  · rw [if_pos hcancelled, if_pos hcancelled]
    exact .step .refl (.keepsUp .cancel (.inr hrunning))
  · rw [if_neg hcancelled, if_neg hcancelled, List.append_nil]
    exact .refl

section

variable {now : Instant} {s t : LeaseSet} {mishap : Option Mishap} {answers : Answers FileSystem}
  {e : StoreError}

theorem perform_changeLeases_of_ok
    (h : (r.daemon.changeLeases now s r.files mishap answers).1.result = .ok t) :
    r.perform (.changeLeases now s mishap answers) = r.perform (.commit now s mishap answers) := by
  have hcommit : (r.daemon.commit now s r.files mishap answers).1.result = .ok t := h
  simp only [perform, Daemon.changeLeases, hcommit]
  rfl

theorem perform_changeLeases_of_error
    (h : (r.daemon.changeLeases now s r.files mishap answers).1.result = .error e) :
    r.perform (.changeLeases now s mishap answers) =
      { r.perform (.commit now s mishap answers) with
        daemon := (r.perform (.commit now s mishap answers)).daemon.giveUp
        events := (r.perform (.commit now s mishap answers)).events ++ [.gaveUp] } := by
  have hcommit : (r.daemon.commit now s r.files mishap answers).1.result = .error e := h
  simp only [perform, Daemon.changeLeases, hcommit, List.append_assoc]
  rfl

end

/-- A move is at most two changes. -/
theorem changes_perform (r : DaemonRun) (m : Move) :
    Changes r.daemon r.events (r.perform m).daemon (r.perform m).events := by
  cases m with
  | changeLeases now s mishap answers =>
    have hcommit : Changes r.daemon r.events (r.perform (.commit now s mishap answers)).daemon
        (r.perform (.commit now s mishap answers)).events := .step .refl (.commits _ _ _)
    cases hresult : (r.daemon.changeLeases now s r.files mishap answers).1.result with
    | ok t =>
      rw [perform_changeLeases_of_ok hresult]
      exact hcommit
    | error e =>
      rw [perform_changeLeases_of_error hresult]
      exact .step hcommit .givesUp
  | commit now s mishap answers => exact .step .refl (.commits _ _ _)
  | giveUp =>
    rw [perform]
    split
    · exact .step .refl .givesUp
    · exact .refl
  | changeFiles files => exact .refl
  | cancel => exact .silent .cancels
  | terminate =>
    show Changes r.daemon r.events r.daemon.terminate r.events
    rw [terminate]
    split
    · exact .silent .cancels
    · exact .refl
  | request => exact .step .refl (.keepsUp .request (.inl rfl))
  | reconfigure =>
    rw [perform]
    split
    · exact .step .refl (.keepsUp .request (.inl rfl))
    · exact .refl
  | keepUp m =>
    rw [perform]
    split
    · next hcan =>
      have hrunning : .upkeep ∈ r.daemon.tasks.running :=
        List.contains_iff_mem.mp (Bool.and_eq_true_iff.mp hcan).1
      have hkept : r.notice.daemon.tasks = r.daemon.tasks := by
        rw [notice, Daemon.notice]
        split <;> rfl
      exact .step (changes_notice hrunning) (.keepsUp m (.inr (hkept ▸ hrunning)))
    · exact .refl
  | finish i => exact changes_finish (fun t cancelled e he => .inl he) i
  | breakOff i e =>
    refine changes_finish (fun t cancelled e' he => .inr ?_) i
    split at he
    · assumption
    · cases he
  | join i =>
    show Changes r.daemon r.events
      { r.daemon with tasks := (r.daemon.tasks.joinAt? i).getD r.daemon.tasks } r.events
    rw [TaskSet.joinAt?]
    cases he : r.daemon.tasks.ended[i]? with
    | none => exact .refl
    | some e => exact .silent (.joins i e he)

theorem accounted_perform (h : Accounted tasks initial r.daemon r.events) (m : Move) :
    Accounted tasks initial (r.perform m).daemon (r.perform m).events :=
  (changes_perform r m).accounted h

theorem accounted_performAll (h : Accounted tasks initial r.daemon r.events) (moves : List Move) :
    Accounted tasks initial (r.performAll moves).daemon (r.performAll moves).events := by
  induction moves generalizing r with
  | nil => exact h
  | cons m moves ih => exact ih (accounted_perform h m)

theorem heeded_performAll (h : Heeded r.events) (moves : List Move) :
    Heeded (r.performAll moves).events := by
  induction moves generalizing r with
  | nil => exact h
  | cons m moves ih => exact ih ((changes_perform r m).heeded h)

/-- After the tasks are joined, a daemon that has not failed does not fail any more. -/
theorem joined_performAll (hrunning : r.daemon.tasks.running = [])
    (hended : r.daemon.tasks.ended = []) (moves : List Move) :
    (r.performAll moves).daemon.tasks.failed = r.daemon.tasks.failed := by
  induction moves generalizing r with
  | nil => rfl
  | cons m moves ih =>
    obtain ⟨hlast, hjoined, hfailed⟩ := (changes_perform r m).joined hrunning hended
    exact (ih hlast hjoined).trans hfailed

theorem performAll_append (r : DaemonRun) (moves later : List Move) :
    r.performAll (moves ++ later) = (r.performAll moves).performAll later := List.foldl_append

/-! ### Calls that give up -/

theorem justified_append {events es : List Daemon.Event} (h : Justified events)
    (hes : .gaveUp ∉ es) : Justified (events ++ es) := by
  have hquiet : es.countP Event.isGivingUp = 0 := by
    refine List.countP_eq_zero.mpr fun e he hgaveUp => ?_
    cases e with
    | gaveUp => exact hes he
    | _ => cases hgaveUp
  rw [Justified, List.countP_append, List.countP_append, hquiet, Nat.add_zero]
  exact Nat.le_add_right_of_le h

theorem perform_giveUp (howes : r.owes = true) : r.perform .giveUp =
    { r with daemon := r.daemon.giveUp, events := r.events ++ [.gaveUp] } := if_pos howes

theorem justified_gaveUp (howes : r.owes = true) : Justified (r.events ++ [.gaveUp]) := by
  have hlt := of_decide_eq_true howes
  rw [Justified, List.countP_append, List.countP_append]
  exact Nat.le_add_right_of_le hlt

theorem justified_finish (h : Justified r.events) (ending : DaemonTask → Bool → Option TaskEnd)
    (i : Nat) : Justified (r.finish ending i).events := by
  rcases r.finish_cases ending i with hsame | ⟨t, e, ht, he⟩
  · rwa [hsame]
  · rw [finish_of_ends ht he]
    exact justified_append h (by simp)

section

variable {now : Instant} {s : LeaseSet} {mishap : Option Mishap} {answers : Answers FileSystem}

/-- A call whose set is refused has something to report. -/
theorem owes_commit {e : StoreError} (h : Justified r.events)
    (hrefused : (r.daemon.changeLeases now s r.files mishap answers).1.result = .error e) :
    (r.perform (.commit now s mishap answers)).owes = true := by
  have hevents : (r.perform (.commit now s mishap answers)).events =
      r.events ++ [.committed (.error e)] := by
    rw [← hrefused]
    rfl
  rw [owes, hevents, List.countP_append, List.countP_append]
  exact decide_eq_true (Nat.lt_succ_of_le h)

/-- **A whole call** is the same as its two moves, of which the second is made only if the first is
refused. -/
theorem perform_changeLeases (h : Justified r.events) (now : Instant) (s : LeaseSet)
    (mishap : Option Mishap) (answers : Answers FileSystem) :
    r.perform (.changeLeases now s mishap answers) =
      r.performAll (.commit now s mishap answers ::
        if (r.daemon.changeLeases now s r.files mishap answers).1.result.isOk then []
        else [.giveUp]) := by
  cases hresult : (r.daemon.changeLeases now s r.files mishap answers).1.result with
  | ok t => exact perform_changeLeases_of_ok hresult
  | error e =>
    -- The refusal itself is what the call owes a report of.
    rw [perform_changeLeases_of_error hresult]
    exact (perform_giveUp (owes_commit h hresult)).symm

end

/-- A call that gives up has failed before. -/
theorem justified_perform (h : Justified r.events) (m : Move) :
    Justified (r.perform m).events := by
  cases m with
  | changeLeases now s mishap answers =>
    cases hresult : (r.daemon.changeLeases now s r.files mishap answers).1.result with
    | ok t =>
      rw [perform_changeLeases_of_ok hresult]
      exact justified_append h (by simp)
    | error e =>
      rw [perform_changeLeases_of_error hresult]
      exact justified_gaveUp (owes_commit h hresult)
  | giveUp =>
    by_cases howes : r.owes = true
    · rw [perform_giveUp howes]
      exact justified_gaveUp howes
    · rwa [perform, if_neg howes]
  | commit now s mishap answers => exact justified_append h (by simp)
  | request => exact justified_append h (by simp)
  | reconfigure =>
    rw [perform]
    split
    · exact justified_append h (by simp)
    · exact h
  | keepUp m =>
    rw [perform]
    split
    · refine justified_append (justified_append h ?_) (by simp)
      split <;> simp
    · exact h
  | finish i => exact justified_finish h _ i
  | breakOff i e => exact justified_finish h _ i
  | _ => exact h

theorem justified_performAll (h : Justified r.events) (moves : List Move) :
    Justified (r.performAll moves).events := by
  induction moves generalizing r with
  | nil => exact h
  | cons m moves ih => exact ih (justified_perform h m)

theorem justified_start (d : Daemon) (files : FileSystem) (moves : List Move) :
    Justified ((start d files).performAll moves).events :=
  justified_performAll (show Justified [] from Nat.le_refl 0) moves

/-- If a call has given up, a change has been refused. -/
theorem refused_of_gaveUp {d : Daemon} {files : FileSystem} {moves : List Move}
    (h : .gaveUp ∈ ((start d files).performAll moves).events) :
    ∃ e, .committed (.error e) ∈ ((start d files).performAll moves).events := by
  have hpos : 0 < ((start d files).performAll moves).events.countP Event.isGivingUp :=
    List.countP_pos_iff.mpr ⟨_, h, rfl⟩
  have hrefusals := Nat.lt_of_lt_of_le hpos (justified_start d files moves)
  obtain ⟨event, hmem, hrefusal⟩ := List.countP_pos_iff.mp hrefusals
  match event, hrefusal with
  | .committed (.error e), _ => exact ⟨e, hmem⟩

end DaemonRun

end LeaseKeeper
