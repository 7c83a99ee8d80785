/-
A daemon that is left to itself.

* `reaches_settle`, `reaches_join` — what a daemon does when it settles, and when its tasks are
  joined, is a run of moves of its own;
* `cancelled_settle_joinEnded` — a daemon in which a call has given up comes to be cancelled;
* `isJoined_settle_joinEnded` — a daemon that is cancelled comes to its end;
* `isJoined_join` — so two rounds are enough.

Design notes: the upkeep takes note of a cancellation in its next step.  Where it has no step to
make, it has either ended, and has noted it before, or nothing is cancelled.
-/
import LeaseKeeper.Proofs.Daemon.Run

namespace LeaseKeeper

/-! ### The loop that keeps the endpoints, once it is cancelled -/

namespace Upkeep

variable {u : Upkeep} {source : Option (List Address)} {o : Outcomes}

theorem cancelled_goOnFor (u : Upkeep) (source : Option (List Address)) (o : Outcomes) (n : Nat) :
    (goOnFor source o n u).cancelled = u.cancelled := by
  obtain ⟨own, hown, hrun⟩ := UpkeepRun.exists_goOnFor ⟨u, []⟩ source o n
  rw [← hrun]
  exact UpkeepRun.cancelled_performAll hown

theorem phase_goOn (h : u.cancelled = true) : (u.goOn source o).phase = .closed := by
  have hnext : (u.goOn source o).next? source o = none :=
    next?_goOnFor (Nat.le_succ_of_le (stepsLeft_le u))
  rcases phase_of_next? hnext with hphase | ⟨-, hnot⟩
  · exact hphase
  · rw [goOn, cancelled_goOnFor, h] at hnot
    cases hnot

end Upkeep

namespace Daemon

variable {tasks : List DaemonTask} {initial : List Address} {d : Daemon} {events : List Event}

/-! ### Two rounds -/

theorem settle_tasks (d : Daemon) (source : SupplyAnswer) (o : Outcomes) :
    (d.settle source o).tasks = d.tasks.settle
      (ending { d.notice with upkeep := d.notice.upkeep.goOn source.toOption o }) := by
  rw [settle, notice]
  split <;> rfl

theorem isJoined_settle_joinEnded (h : d.tasks.cancelled = true) (source : SupplyAnswer)
    (o : Outcomes) : (d.settle source o).joinEnded.isJoined = true := by
  have hnotice : d.notice = { d with upkeep := d.upkeep.cancel } := if_pos h
  have hphase : (d.upkeep.cancel.goOn source.toOption o).phase = .closed := Upkeep.phase_goOn rfl
  have hrunning : (d.settle source o).tasks.running = [] := by
    rw [settle_tasks, hnotice]
    refine List.filter_eq_nil_iff.mpr fun t _ => ?_
    rw [h]
    cases t with
    | upkeep => simp [ending, hphase]
    | fatalWatch =>
      simp only [ending]
      split <;> simp
    | _ => simp [ending]
  show ((d.settle source o).tasks.joinEnded.size == 0) = true
  rw [TaskSet.size_joinEnded, hrunning]
  rfl

theorem cancelled_settle_joinEnded (h : Accounted tasks initial d events)
    (hwatch : .fatalWatch ∈ tasks) (hends : d.tasks.cancelled = true ∨ d.fatal = true)
    (source : SupplyAnswer) (o : Outcomes) :
    (d.settle source o).joinEnded.tasks.cancelled = true := by
  show (d.settle source o).tasks.joinEnded.cancelled = true
  rw [TaskSet.cancelled_joinEnded, settle_tasks]
  show d.tasks.cancelled = true ∨ _
  by_cases hcancelled : d.tasks.cancelled = true
  · exact .inl hcancelled
  · have hfatal : d.fatal = true := hends.resolve_left hcancelled
    refine .inr ?_
    by_cases hrunning : .fatalWatch ∈ d.tasks.running
    · -- The watch fails now.
      refine ⟨.failure, List.mem_append_right _ (List.mem_filterMap.mpr ⟨_, hrunning, ?_⟩), nofun⟩
      rw [ending_fatalWatch_eq_some]
      refine .inl ⟨?_, rfl⟩
      show d.notice.fatal = true
      rw [notice, if_neg hcancelled]
      exact hfatal
    · -- The watch has failed, but is not joined.
      obtain ⟨e, he⟩ := h.exists_ended hwatch hrunning
      rcases h.watch e he with ⟨rfl, -⟩ | ⟨-, -, hyes⟩
      · rcases h.faults.mpr ⟨_, _, he, nofun⟩ with hfailed | ⟨e, hmem, hne⟩
        · exact absurd (h.cancelled hfailed) hcancelled
        · exact ⟨e, List.mem_append_left _ hmem, hne⟩
      · exact absurd hyes hcancelled

/-- If the tasks are cancelled, or a call has given up, joining them comes to its end. -/
theorem isJoined_join (h : Accounted tasks initial d events) (hwatch : .fatalWatch ∈ tasks)
    (hends : d.tasks.cancelled = true ∨ d.fatal = true) (source : SupplyAnswer) (o : Outcomes) :
    (d.join source o).isJoined = true :=
  isJoined_settle_joinEnded (cancelled_settle_joinEnded h hwatch hends source o) source o

end Daemon

namespace DaemonRun

open Daemon

variable {tasks : List DaemonTask} {initial : List Address} {r : DaemonRun}

/-! ### Settling and joining as moves -/

/-- Moves of its own take a daemon from one state to another. -/
def Reaches (r : DaemonRun) (d : Daemon) : Prop :=
  ∃ own, (∀ m ∈ own, m.isOwn = true) ∧ (r.performAll own).daemon = d

theorem Reaches.refl (r : DaemonRun) : r.Reaches r.daemon := ⟨[], nofun, rfl⟩

theorem Reaches.step {m : Move} {d : Daemon} (hown : m.isOwn = true) (h : (r.perform m).Reaches d) :
    r.Reaches d := by
  obtain ⟨own, howns, hd⟩ := h
  refine ⟨m :: own, fun m' hm' => ?_, hd⟩
  rcases List.mem_cons.mp hm' with rfl | hm'
  · exact hown
  · exact howns m' hm'

theorem notice_of_noticed (h : r.daemon.tasks.cancelled = true → r.daemon.upkeep.cancelled = true) :
    r.notice.daemon = r.daemon := by
  show r.daemon.notice = r.daemon
  rw [Daemon.notice]
  split
  · next hcancelled =>
    have hsame : r.daemon.upkeep.cancel = r.daemon.upkeep := by
      rw [Upkeep.cancel, ← h hcancelled]
    rw [hsame]
  · rfl

theorem perform_keepUp {m : Upkeep.Move} (hrunning : .upkeep ∈ r.daemon.tasks.running)
    (hown : m.isOwn = true) : (r.perform (.keepUp m)).daemon =
      { r.daemon.notice with upkeep := r.daemon.notice.upkeep.move m } := by
  have hcan : (r.daemon.tasks.running.contains .upkeep && m.isOwn) = true := by
    rw [List.contains_iff_mem.mpr hrunning, hown]
    rfl
  rw [perform, if_pos hcan]
  rfl

theorem reaches_goOnFor (hrunning : .upkeep ∈ r.daemon.tasks.running)
    (hnoticed : r.daemon.tasks.cancelled = true → r.daemon.upkeep.cancelled = true)
    (source : Option (List Address)) (o : Outcomes) (n : Nat) :
    r.Reaches { r.daemon with upkeep := r.daemon.upkeep.goOnFor source o n } := by
  induction n generalizing r with
  | zero => exact .refl r
  | succ n ih =>
    cases hnext : r.daemon.upkeep.next? source o with
    | none =>
      rw [Upkeep.goOnFor_of_next?_none hnext]
      exact .refl r
    | some m =>
      have hown := Upkeep.isOwn_next? hnext
      have hstep : (r.perform (.keepUp m)).daemon =
          { r.daemon with upkeep := r.daemon.upkeep.move m } := by
        rw [perform_keepUp hrunning hown]
        show { r.notice.daemon with upkeep := r.notice.daemon.upkeep.move m } = _
        rw [notice_of_noticed hnoticed]
      have hrest := ih (r := r.perform (.keepUp m)) (by rwa [hstep]) (by
        rw [hstep]
        show r.daemon.tasks.cancelled = true → (r.daemon.upkeep.move m).cancelled = true
        rwa [Upkeep.cancelled_move hown])
      rw [hstep] at hrest
      rw [Upkeep.goOnFor_of_next? hnext]
      exact hrest.step rfl

theorem reaches_goOn (h : Accounted tasks initial r.daemon r.events) (hupkeep : .upkeep ∈ tasks)
    (source : Option (List Address)) (o : Outcomes) :
    r.Reaches { r.daemon.notice with upkeep := r.daemon.notice.upkeep.goOn source o } := by
  by_cases hrunning : .upkeep ∈ r.daemon.tasks.running
  · by_cases hnoticed : r.daemon.tasks.cancelled = true → r.daemon.upkeep.cancelled = true
    · show r.Reaches { r.notice.daemon with upkeep := r.notice.daemon.upkeep.goOn source o }
      rw [notice_of_noticed hnoticed]
      exact reaches_goOnFor hrunning hnoticed source o 8
    · -- The loop takes note of the cancellation now, and so it has a step to make.
      obtain ⟨hcancelled, hnot⟩ := Classical.not_imp.mp hnoticed
      have hnotice : r.daemon.notice = { r.daemon with upkeep := r.daemon.upkeep.cancel } :=
        if_pos hcancelled
      have hphase : r.daemon.upkeep.phase ≠ .closed := by
        intro hclosed
        exact hnot (h.upkeep.ending (by rw [hclosed]; rfl))
      cases hnext : r.daemon.upkeep.cancel.next? source o with
      | none =>
        rcases Upkeep.phase_of_next? hnext with hclosed | ⟨-, hfalse⟩
        · exact absurd hclosed hphase
        · cases hfalse
      | some m =>
        have hown := Upkeep.isOwn_next? hnext
        have hstep := perform_keepUp hrunning hown
        rw [hnotice] at hstep ⊢
        have hrest := reaches_goOnFor (r := r.perform (.keepUp m)) (by rwa [hstep]) (by
          rw [hstep]
          intro _
          exact Upkeep.cancelled_move hown) source o 7
        rw [hstep] at hrest
        show r.Reaches { r.daemon with upkeep := r.daemon.upkeep.cancel.goOnFor source o 8 }
        rw [Upkeep.goOnFor_of_next? hnext]
        exact hrest.step rfl
  · -- The loop has ended, and there is nothing left to do.
    obtain ⟨e, he⟩ := h.exists_ended hupkeep hrunning
    have hphase := (h.closed e he).2
    have hcancelled := h.upkeep.ending (by rw [hphase]; rfl)
    have hnext : r.daemon.upkeep.next? source o = none := by rw [Upkeep.next?, hphase]
    show r.Reaches { r.notice.daemon with upkeep := r.notice.daemon.upkeep.goOn source o }
    rw [notice_of_noticed fun _ => hcancelled, Upkeep.goOn, Upkeep.goOnFor_of_next?_none hnext]
    exact .refl r

/-- Tasks that can end do so one after another; `kept` wait. -/
theorem reaches_ends (kept todo : List DaemonTask) (h : r.daemon.tasks.running = kept ++ todo) :
    let ending t := r.daemon.ending t r.daemon.tasks.cancelled
    r.Reaches { r.daemon with
      tasks := { r.daemon.tasks with
        running := kept ++ todo.filter fun t => (ending t).isNone
        ended := r.daemon.tasks.ended ++ todo.filterMap ending } } := by
  induction todo generalizing r kept with
  | nil =>
    simp only [List.filter_nil, List.filterMap_nil, List.append_nil]
    rw [List.append_nil] at h
    rw [← h]
    exact .refl r
  | cons t todo ih =>
    cases he : r.daemon.ending t r.daemon.tasks.cancelled with
    | none =>
      have hrest := ih (kept ++ [t]) (by rw [h, List.append_assoc]; rfl)
      simpa [he] using hrest
    | some e =>
      have ht : r.daemon.tasks.running[kept.length]? = some t := by simp [h]
      have herase : r.daemon.tasks.running.eraseIdx kept.length = kept ++ todo := by
        rw [h, List.eraseIdx_append_of_length_le (Nat.le_refl _), Nat.sub_self]
        rfl
      have hstep := finish_of_ends ht he
      have hrest := ih (r := r.perform (.finish kept.length)) kept (by
        rw [perform, hstep]
        exact herase)
      rw [perform, hstep] at hrest
      have hsame : Daemon.ending { r.daemon with
          tasks := { r.daemon.tasks with
            running := r.daemon.tasks.running.eraseIdx kept.length
            ended := r.daemon.tasks.ended ++ [e] } } = r.daemon.ending := by
        funext t cancelled
        cases t <;> rfl
      refine Reaches.step (m := .finish kept.length) rfl ?_
      rw [perform, hstep]
      simpa [he, hsame] using hrest

theorem reaches_joinEnded (r : DaemonRun) : r.Reaches r.daemon.joinEnded := by
  generalize hended : r.daemon.tasks.ended = es
  induction es generalizing r with
  | nil =>
    have hnone : { r.daemon.tasks with ended := [] } = r.daemon.tasks := by rw [← hended]
    have hsame : r.daemon.tasks.joinEnded = r.daemon.tasks := by
      rw [TaskSet.joinEnded, hended]
      exact hnone
    rw [Daemon.joinEnded, hsame]
    exact .refl r
  | cons e es ih =>
    have hjoin : r.daemon.tasks.joinAt? 0 =
        some ({ r.daemon.tasks with ended := es }.record e) := by
      rw [TaskSet.joinAt?, hended]
      rfl
    have hstep : r.perform (.join 0) =
        { r with daemon := { r.daemon with
          tasks := { r.daemon.tasks with ended := es }.record e } } := by
      rw [perform, hjoin]
      rfl
    have hrest := ih (r.perform (.join 0)) (by rw [hstep]; exact TaskSet.ended_record _ _)
    refine Reaches.step (m := .join 0) rfl ?_
    have hsame : (r.perform (.join 0)).daemon.joinEnded = r.daemon.joinEnded := by
      rw [hstep, Daemon.joinEnded, Daemon.joinEnded, TaskSet.joinEnded, TaskSet.joinEnded,
        TaskSet.ended_record, hended]
      cases e <;> rfl
    rwa [hsame] at hrest

theorem Reaches.trans {d d' : Daemon} (hr : Accounted tasks initial r.daemon r.events)
    (h : r.Reaches d)
    (h' : ∀ q : DaemonRun, Accounted tasks initial q.daemon q.events → q.daemon = d →
      q.Reaches d') : r.Reaches d' := by
  obtain ⟨own, hown, hd⟩ := h
  obtain ⟨more, hmore, hd'⟩ := h' (r.performAll own) (accounted_performAll hr own) hd
  refine ⟨own ++ more, fun m hm => ?_, by rw [performAll_append, hd']⟩
  exact (List.mem_append.mp hm).elim (hown m) (hmore m)

/-- Settling is a run of the daemon's own moves. -/
theorem reaches_settle (h : Accounted tasks initial r.daemon r.events) (hupkeep : .upkeep ∈ tasks)
    (source : SupplyAnswer) (o : Outcomes) : r.Reaches (r.daemon.settle source o) := by
  refine (reaches_goOn h hupkeep source.toOption o).trans h fun q _ hd => ?_
  have hends := reaches_ends (r := q) [] q.daemon.tasks.running rfl
  rw [hd] at hends
  exact hends

/-- Joining the tasks, as far as they end, is a run of the daemon's own moves. -/
theorem reaches_join (h : Accounted tasks initial r.daemon r.events) (hupkeep : .upkeep ∈ tasks)
    (source : SupplyAnswer) (o : Outcomes) : r.Reaches (r.daemon.join source o) := by
  have hround (q : DaemonRun) (hq : Accounted tasks initial q.daemon q.events) :
      q.Reaches (q.daemon.settle source o).joinEnded := by
    refine (reaches_settle hq hupkeep source o).trans hq fun p _ hd => ?_
    rw [← hd]
    exact reaches_joinEnded p
  refine (hround r h).trans h fun q hq hd => ?_
  rw [Daemon.join, ← hd]
  exact hround q hq

end DaemonRun

end LeaseKeeper
