/-
When a daemon has failed.

* `failed_iff` — once all tasks are joined: the daemon has failed if a call gave up while the task
  that watches for this was still there, or if a task that waits for signals broke off, and not
  otherwise;
* `closed_of_isJoined` — then the pool has been shut down;
* `EndsFailed` — however a run goes on, its daemon comes to its end as a failed one;
* `fail_fast` — a call that fails in time leads there, and nothing else that is not a fault of a
  task does;
* `failed_iff_heeded` — a call that gives up too late makes no difference;
* `late_call_unheeded` — a change that is refused after the daemon has ended, without a trace.
-/
import LeaseKeeper.Proofs.Daemon.Settling
import LeaseKeeper.Proofs.Store.Agreement

namespace LeaseKeeper

namespace Daemon

variable {tasks : List DaemonTask} {initial : List Address} {d : Daemon} {events : List Event}

/-! ### When all tasks are joined -/

theorem isJoined_iff : d.isJoined = true ↔ d.tasks.running = [] ∧ d.tasks.ended = [] := by
  rw [isJoined, beq_iff_eq, TaskSet.size, Nat.add_eq_zero_iff, List.length_eq_zero_iff,
    List.length_eq_zero_iff]

theorem Accounted.ended_of_isJoined (h : Accounted tasks initial d events)
    (hjoined : d.isJoined = true) {t : DaemonTask} (ht : t ∈ tasks) : ∃ e, .ended t e ∈ events := by
  refine h.exists_ended ht ?_
  rw [(isJoined_iff.mp hjoined).1]
  exact List.not_mem_nil

/-- The upkeep has shut its pool down when it is joined. -/
theorem closed_of_isJoined (h : Accounted tasks initial d events) (hupkeep : .upkeep ∈ tasks)
    (hjoined : d.isJoined = true) :
    (∃ o, .upkeep (.shutDown o) ∈ events) ∧ d.upkeep.pool.live = [] := by
  obtain ⟨e, he⟩ := h.ended_of_isJoined hjoined hupkeep
  obtain ⟨⟨o, hmem⟩, hlive⟩ := h.upkeep.closed (h.closed e he).2
  refine ⟨⟨o, ?_⟩, hlive⟩
  obtain ⟨event, hevent, hsome⟩ := List.mem_filterMap.mp hmem
  match event, hsome with
  | .upkeep e, hsome =>
    cases hsome
    exact hevent

/-- Only these tasks can go wrong: the watch, because a call gave up, and those that wait for
signals. -/
theorem Accounted.fault_iff (h : Accounted tasks initial d events) {t : DaemonTask} {e : TaskEnd}
    (hmem : .ended t e ∈ events) : e ≠ .clean ↔
      t = .fatalWatch ∧ Heeded events ∨ t.awaitsSignal = true ∧ e ≠ .clean := by
  cases t with
  | upkeep =>
    have hclean := (h.closed e hmem).1
    simp [hclean, DaemonTask.awaitsSignal]
  | fatalWatch =>
    rcases h.watch e hmem with ⟨rfl, hheeded⟩ | ⟨rfl, hnot, -⟩
    · simp [hheeded]
    · simp [hnot]
  | _ => simp [DaemonTask.awaitsSignal]

theorem failed_iff (h : Accounted tasks initial d events) (hwatch : .fatalWatch ∈ tasks)
    (hjoined : d.isJoined = true) : d.failed = true ↔
      Heeded events ∨ ∃ t e, t.awaitsSignal = true ∧ .ended t e ∈ events ∧ e ≠ .clean := by
  have hended := (isJoined_iff.mp hjoined).2
  have hfaults : d.failed = true ↔ ∃ t e, .ended t e ∈ events ∧ e ≠ .clean := by
    rw [← h.faults, hended]
    exact (or_iff_left fun hnone => List.not_mem_nil hnone.choose_spec.1).symm
  rw [hfaults]
  constructor
  · rintro ⟨t, e, hmem, hne⟩
    refine ((h.fault_iff hmem).mp hne).imp And.right fun ⟨hsignal, _⟩ => ?_
    exact ⟨t, e, hsignal, hmem, hne⟩
  · rintro (hheeded | ⟨t, e, -, hmem, hne⟩)
    · obtain ⟨e, hmem⟩ := h.ended_of_isJoined hjoined hwatch
      exact ⟨_, e, hmem, (h.fault_iff hmem).mpr (.inl ⟨rfl, hheeded⟩)⟩
    · exact ⟨t, e, hmem, hne⟩

/-- As long as no call has given up and no task has broken off, the daemon has not failed. -/
theorem failed_eq_false (h : Accounted tasks initial d events) (hquiet : .gaveUp ∉ events)
    (hclean : ∀ t e, t.awaitsSignal = true → .ended t e ∈ events → e = .clean) :
    d.failed = false := by
  refine Bool.eq_false_iff.mpr fun hfailed => ?_
  obtain ⟨t, e, hmem, hne⟩ := h.faults.mp (.inl hfailed)
  rcases (h.fault_iff hmem).mp hne with ⟨-, hheeded⟩ | ⟨hsignal, -⟩
  · exact hquiet hheeded.gaveUp_mem
  · exact hne (hclean t e hsignal hmem)

end Daemon

theorem FileSystem.makeDirectories_empty :
    (FileSystem.empty ["d"]).makeDirectories (.ofText "/d") = (.ok (), .empty ["d"]) := by
  have happroach : (FileSystem.empty ["d"]).Approach (.ofText "/d") [] "d" [] :=
    ⟨rfl, by decide, by decide, ⟨linkLimit, .stop⟩, ⟨directoryMode, rfl⟩⟩
  have hvacancy : (FileSystem.empty ["d"]).makeDirectory (.ofText "/d") =
      .error (.system .exists) := by
    rw [makeDirectory, vacancy, happroach.ending]
    rfl
  have hleads : (FileSystem.empty ["d"]).Leads linkLimit [] ["d"] linkLimit ["d"] :=
    .directory (by decide) get?_empty_directory .stop
  have hsteps : (Path.ofText "/d").steps = ["d"] := by decide
  have hthere : (FileSystem.empty ["d"]).isDirectory (.ofText "/d") = true := by
    rw [isDirectory, locateDirectory, locate_eq_walk rfl, hsteps]
    show (do directoryAt (← FileSystem.walk _ true linkLimit [] ["d"])).isOk = true
    rw [hleads.walk_eq, get?_empty_directory]
    rfl
  have hnames : (Path.ofText "/d").names.length = 1 := by decide
  rw [makeDirectories, hnames, makeDirectoriesWithin, hvacancy]
  simp only [hthere]
  rfl

namespace DaemonRun

open Daemon

variable {s : Setup} {now : Instant} {source : SupplyAnswer} {fs tree : FileSystem} {d : Daemon}
  {r : DaemonRun}

theorem exists_accounted (hstart : s.start now source fs = (.ok d, tree)) (moves : List Move) :
    ∃ initial, Accounted s.tasks initial ((start d tree).performAll moves).daemon
      ((start d tree).performAll moves).events := by
  obtain ⟨store, addresses, -, -, rfl⟩ := Setup.start_eq_ok hstart
  exact ⟨addresses, accounted_performAll (s.accounted_startWith now store addresses tree) moves⟩

/-- A call that gives up while the watch is there is heeded. -/
theorem heeded_giveUp (hwatch : ∀ e, .ended .fatalWatch e ∉ r.events) (howes : r.owes = true) :
    Heeded (r.perform .giveUp).events := by
  rw [perform_giveUp howes]
  exact ⟨r.events, [], rfl, hwatch⟩

/-- However a run goes on, its daemon comes to its end as a failed one. -/
structure EndsFailed (r : DaemonRun) : Prop where
  /-- Once all tasks are joined, the daemon has failed, it is cancelled, and the pool has been shut
  down and has no endpoint left. -/
  joined : ∀ after,
    let q := r.performAll after
    q.daemon.isJoined = true →
      q.daemon.failed = true ∧ q.daemon.exit = .daemonFailed ∧
      q.daemon.tasks.cancelled = true ∧
      (∃ o, .upkeep (.shutDown o) ∈ q.events) ∧ q.daemon.upkeep.pool.live = []
  /-- From wherever the daemon is, it comes there by itself. -/
  reaches : ∀ after answer o,
    let q := r.performAll after
    q.Reaches (q.daemon.join answer o) ∧ (q.daemon.join answer o).isJoined = true

theorem endsFailed_of_heeded {initial : List Address}
    (h : Accounted s.tasks initial r.daemon r.events) (hheeded : Heeded r.events) :
    r.EndsFailed := by
  have hafter (after : List Move) : Accounted s.tasks initial (r.performAll after).daemon
      (r.performAll after).events := accounted_performAll h after
  constructor
  · intro after q hjoined
    have hfailed := (failed_iff (hafter after) s.fatalWatch_mem_tasks hjoined).mpr
      (.inl (heeded_performAll hheeded after))
    refine ⟨hfailed, if_pos hfailed, (hafter after).cancelled hfailed, ?_⟩
    exact closed_of_isJoined (hafter after) s.upkeep_mem_tasks hjoined
  · intro after answer o q
    have hfatal : q.daemon.fatal = true :=
      (hafter after).fatal.mpr (heeded_performAll hheeded after).gaveUp_mem
    refine ⟨reaches_join (hafter after) s.upkeep_mem_tasks answer o, ?_⟩
    exact isJoined_join (hafter after) s.fatalWatch_mem_tasks (.inr hfatal) answer o

/-- Joining the tasks right away is one way to go on. -/
theorem EndsFailed.exit_join (h : r.EndsFailed) (answer : SupplyAnswer) (o : Outcomes) :
    (r.daemon.join answer o).exit = .daemonFailed := by
  obtain ⟨⟨own, -, hdaemon⟩, hjoined⟩ := h.reaches [] answer o
  have hown : (r.performAll own).daemon = r.daemon.join answer o := hdaemon
  rw [← hown]
  refine (h.joined own ?_).2.1
  rw [hown]
  exact hjoined

theorem endsFailed_giveUp (hstart : s.start now source fs = (.ok d, tree)) {before : List Move}
    (hrunning : .fatalWatch ∈ ((start d tree).performAll before).daemon.tasks.running)
    (howes : ((start d tree).performAll before).owes = true) :
    (((start d tree).performAll before).perform .giveUp).EndsFailed := by
  obtain ⟨initial, hbefore⟩ := exists_accounted hstart before
  have hwatch := ((hbefore.running .fatalWatch).mp hrunning).2
  exact endsFailed_of_heeded (accounted_perform hbefore .giveUp) (heeded_giveUp hwatch howes)

/-- **Failing fast.**  Take any state of a daemon in which the task that watches for this has not
ended.  A call that hands a lease set in and returns an error leaves a daemon that comes to its end
as a failed one, and so does a call that has failed before and returns now: however the daemon goes
on, once all tasks are joined it has failed, it is cancelled, and the pool has been shut down and
has no endpoint left.  If no call returns an error and no task that waits for signals breaks off,
the daemon has not failed, whatever else has happened. -/
theorem fail_fast (hstart : s.start now source fs = (.ok d, tree)) :
    (∀ before,
      let r := (start d tree).performAll before
      .fatalWatch ∈ r.daemon.tasks.running →
      (∀ now leases mishap answers e,
        (r.daemon.changeLeases now leases r.files mishap answers).1.result = .error e →
        (r.perform (.changeLeases now leases mishap answers)).EndsFailed) ∧
      (r.owes = true → (r.perform .giveUp).EndsFailed)) ∧
    ∀ moves,
      let r := (start d tree).performAll moves
      .gaveUp ∉ r.events → (∀ t e, t.awaitsSignal = true → .ended t e ∈ r.events → e = .clean) →
      r.daemon.failed = false ∧ r.daemon.exit = .success "" := by
  constructor
  · intro before r hrunning
    refine ⟨fun now leases mishap answers e hrefused => ?_, endsFailed_giveUp hstart hrunning⟩
    -- The call is refused, with the watch still there, and then gives up.
    have hjustified : Justified r.events := justified_start d tree before
    have hcommit : (start d tree).performAll (before ++ [.commit now leases mishap answers]) =
        r.perform (.commit now leases mishap answers) := performAll_append _ _ _
    have hcall : r.perform (.changeLeases now leases mishap answers) =
        (r.perform (.commit now leases mishap answers)).perform .giveUp := by
      rw [perform_changeLeases hjustified, hrefused]
      rfl
    rw [hcall, ← hcommit]
    refine endsFailed_giveUp hstart ?_ ?_
    · rw [hcommit]
      exact hrunning
    · rw [hcommit]
      exact owes_commit hjustified hrefused
  · intro moves r hquiet hclean
    obtain ⟨initial, hr⟩ := exists_accounted hstart moves
    have hfailed : r.daemon.failed = false := failed_eq_false hr hquiet hclean
    refine ⟨hfailed, if_neg ?_⟩
    rw [hfailed]
    exact Bool.false_ne_true

/-- **What failing says about calls.**  Once all tasks are joined, the daemon has failed if a call
has given up before the watch ended, or if a task that waits for signals has broken off; and nothing
that comes later makes a difference, so a call that gives up only then leaves no trace. -/
theorem failed_iff_heeded (hstart : s.start now source fs = (.ok d, tree))
    (moves later : List Move) :
    let r := (start d tree).performAll moves
    let q := r.performAll later
    r.daemon.isJoined = true →
      (r.daemon.failed = true ↔ Heeded r.events ∨
        ∃ t e, t.awaitsSignal = true ∧ .ended t e ∈ r.events ∧ e ≠ .clean) ∧
      (.gaveUp ∈ q.events → ∃ e, .committed (.error e) ∈ q.events) ∧
      q.daemon.failed = r.daemon.failed := by
  intro r q hjoined
  obtain ⟨initial, hr⟩ := exists_accounted hstart moves
  obtain ⟨hrunning, hended⟩ := isJoined_iff.mp hjoined
  refine ⟨failed_iff hr s.fatalWatch_mem_tasks hjoined, fun hgaveUp => ?_, ?_⟩
  · have hq : q = (start d tree).performAll (moves ++ later) :=
      (performAll_append (start d tree) moves later).symm
    rw [hq] at hgaveUp ⊢
    exact refused_of_gaveUp hgaveUp
  · exact joined_performAll hrunning hended later

/-! ### A daemon on an empty directory -/

/-- A setup with its leases in the file `/d/l`, and without signals. -/
def plainSetup : Setup :=
  { stateDirectory := "/d", leasesFile := some "/d/l", reconfiguresOnSignal := false }

/-- The daemon that this setup starts. -/
def plainDaemon : Daemon := plainSetup.startWith .epoch ⟨[], []⟩ [] (.empty ["d"])

theorem start_plainSetup :
    plainSetup.start .epoch (.ok []) (.empty ["d"]) = (.ok plainDaemon, .empty ["d"]) := by
  have hmade : (FileSystem.empty ["d"]).makeDirectories (.ofText plainSetup.stateDirectory) =
      (.ok (), .empty ["d"]) := FileSystem.makeDirectories_empty
  have hopen : LeaseStore.ofStorage (fileStorage plainSetup.leaseFilePath) (.empty ["d"]) =
      .ok ⟨[], []⟩ := ofStorage_empty
  rw [Setup.start]
  simp only [hmade, hopen]
  rfl

/-- No fresh file can be created for a set. -/
def storageFull : Option Mishap := some ⟨.create, .plain .storageFull⟩

/-- A change that is refused. -/
def refusedChange : Move := .commit .epoch [laptop] storageFull (ProcessTable.answers {})

/-- The same change as a whole call. -/
def refusedCall : Move := .changeLeases .epoch [laptop] storageFull (ProcessTable.answers {})

theorem exists_refused (r : DaemonRun) :
    ∃ e, (r.daemon.changeLeases .epoch [laptop] r.files storageFull
      (ProcessTable.answers {})).1.result = .error e := by
  obtain ⟨e, he⟩ := r.files.exists_replaceWith_create (.ofText r.daemon.leaseFilePath)
    (LeaseFile.encode [laptop]) (.plain .storageFull)
  rw [changeLeases, commit, commitChange, LeaseStore.replace, fileStorageWith, storageFull]
  simp only [he]
  exact ⟨_, rfl⟩

theorem owes_refusedChange (h : Justified r.events) : (r.perform refusedChange).owes = true :=
  owes_commit h (exists_refused r).choose_spec

theorem perform_refusedCall (h : Justified r.events) :
    r.perform refusedCall = r.performAll [refusedChange, .giveUp] := by
  obtain ⟨e, he⟩ := exists_refused r
  rw [refusedCall, perform_changeLeases h, he]
  rfl

/-- Endpoints that last, stop and can be bound. -/
def fineOutcomes : Outcomes := ⟨fun _ => false, fun _ => .ok (), fun _ => .ok ()⟩

/-- The moves in which that daemon is cancelled and ends. -/
def stopping : List Move :=
  [.cancel, .keepUp (.complete fineOutcomes), .keepUp (.turn true),
    .keepUp (.complete fineOutcomes), .finish 0, .finish 0, .join 0, .join 0]

theorem isJoined_stopping :
    ((start plainDaemon (.empty ["d"])).performAll stopping).daemon.isJoined = true := by rfl

/-- What has happened then: the loop has taken note of the cancellation in each of its steps. -/
theorem events_stopping : ((start plainDaemon (.empty ["d"])).performAll stopping).events =
    [.upkeep .cancelled, .upkeep (.reconciled [] fineOutcomes), .upkeep .cancelled,
      .upkeep .cancelled, .upkeep (.shutDown fineOutcomes), .ended .upkeep .clean,
      .ended .fatalWatch .clean] := by rfl

/-- A change is refused and the daemon fails, whether or not there is time between the refusal and
the return of the call; without that, it stops as it should. -/
theorem fail_fast_plain :
    plainSetup.start .epoch (.ok []) (.empty ["d"]) = (.ok plainDaemon, .empty ["d"]) ∧
    (let r := start plainDaemon (.empty ["d"])
     .fatalWatch ∈ r.daemon.tasks.running ∧
      (∃ e, (r.daemon.changeLeases .epoch [laptop] r.files storageFull
        (ProcessTable.answers {})).1.result = .error e) ∧
      ((r.perform refusedCall).daemon.join (.ok []) fineOutcomes).exit = .daemonFailed) ∧
    (let r := (start plainDaemon (.empty ["d"])).performAll [refusedChange]
     .fatalWatch ∈ r.daemon.tasks.running ∧ r.owes = true ∧
      ((r.perform .giveUp).daemon.join (.ok []) fineOutcomes).exit = .daemonFailed) ∧
    (let r := (start plainDaemon (.empty ["d"])).performAll stopping
     .gaveUp ∉ r.events ∧
      (∀ t e, t.awaitsSignal = true → .ended t e ∈ r.events → e = .clean) ∧
      r.daemon.exit = .success "") := by
  have hrunning : .fatalWatch ∈ (start plainDaemon (.empty ["d"])).daemon.tasks.running :=
    List.mem_cons_of_mem _ List.mem_cons_self
  have hrefused := exists_refused (start plainDaemon (.empty ["d"]))
  have howes : ((start plainDaemon (.empty ["d"])).performAll [refusedChange]).owes = true :=
    owes_refusedChange (justified_start plainDaemon (.empty ["d"]) [])
  have hquiet : .gaveUp ∉ ((start plainDaemon (.empty ["d"])).performAll stopping).events := by
    rw [events_stopping]
    simp
  have hclean : ∀ t e, t.awaitsSignal = true →
      .ended t e ∈ ((start plainDaemon (.empty ["d"])).performAll stopping).events →
      e = .clean := by
    rw [events_stopping]
    intro t e hsignal hmem
    simp only [List.mem_cons, reduceCtorEq, false_or, Event.ended.injEq, List.not_mem_nil,
      or_false] at hmem
    rcases hmem with ⟨rfl, -⟩ | ⟨rfl, -⟩ <;> cases hsignal
  refine ⟨start_plainSetup, ⟨hrunning, hrefused, ?_⟩, ⟨hrunning, howes, ?_⟩, hquiet, hclean, ?_⟩
  · have hcall := ((fail_fast start_plainSetup).1 [] hrunning).1 .epoch [laptop] storageFull
      (ProcessTable.answers {}) hrefused.choose hrefused.choose_spec
    exact hcall.exit_join (.ok []) fineOutcomes
  · have hgivesUp := ((fail_fast start_plainSetup).1 [refusedChange] hrunning).2 howes
    exact hgivesUp.exit_join (.ok []) fineOutcomes
  · exact ((fail_fast start_plainSetup).2 stopping hquiet hclean).2

/-- A change is refused after the daemon has stopped: the call gives up, and the daemon has not
failed.  As a whole call it is no different. -/
theorem late_call_unheeded :
    plainSetup.start .epoch (.ok []) (.empty ["d"]) = (.ok plainDaemon, .empty ["d"]) ∧
    ((start plainDaemon (.empty ["d"])).performAll stopping).daemon.isJoined = true ∧
    (let q := ((start plainDaemon (.empty ["d"])).performAll stopping).performAll
      [refusedChange, .giveUp]
     .gaveUp ∈ q.events ∧ (∃ e, .committed (.error e) ∈ q.events) ∧ q.daemon.failed = false ∧
      ((start plainDaemon (.empty ["d"])).performAll stopping).perform refusedCall = q) := by
  have hlate := failed_iff_heeded start_plainSetup stopping [refusedChange, .giveUp]
    isJoined_stopping
  have hjustified := justified_start plainDaemon (.empty ["d"]) stopping
  have hgaveUp : .gaveUp ∈ (((start plainDaemon (.empty ["d"])).performAll stopping).performAll
      [refusedChange, .giveUp]).events := by
    show .gaveUp ∈ ((((start plainDaemon (.empty ["d"])).performAll stopping).perform
      refusedChange).perform .giveUp).events
    rw [perform_giveUp (owes_refusedChange hjustified)]
    exact List.mem_append_right _ List.mem_cons_self
  exact ⟨start_plainSetup, isJoined_stopping, hgaveUp, hlate.2.1 hgaveUp, hlate.2.2,
    perform_refusedCall hjustified⟩

end DaemonRun

end LeaseKeeper
