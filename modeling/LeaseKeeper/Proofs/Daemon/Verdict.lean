/-
What a set of tasks comes to, whichever task ends first.

* `TaskRun.Step`, `TaskRun.Steps` — what can happen in a set and to it: tasks are put into it, they
  end by themselves or once the set is cancelled, and they are joined while somebody waits for that;
* `TaskRun.Accounted` — what a set is, by all that has happened in it; `accounted_step` shows it of
  one step, and `accounted_steps` of any number of them;
* `reaches_joinAll` — joining all tasks is such a run;
* `verdict` — whether a set has failed, and whether it is cancelled, once tasks have been joined.

Design notes: a task that ends by itself always ends in the same way, and one that ends because
the set is cancelled can end in any.  So `own` says how the tasks end by themselves, and any
`ending` that agrees with it can be that of the next step.
-/
import LeaseKeeper.Proofs.Daemon.TaskSet
import Mathlib.Data.List.Perm.Basic

namespace LeaseKeeper

/-! ### Runs -/

/-- What happens in a set of tasks and to it. -/
inductive TaskEvent (τ : Type) where
  | put (t : τ)
  | ended (t : τ) (e : TaskEnd)
  /-- The set is cancelled by somebody else. -/
  | cancelled
  /-- Somebody begins to wait until all tasks are joined. -/
  | called
  | joined (e : TaskEnd)
  /-- The waiting is over. -/
  | returned
  /-- Somebody stops waiting before it is over. -/
  | givenUp

namespace TaskEvent

variable {τ : Type}

/-- The tasks that have been put into the set. -/
def puts (events : List (TaskEvent τ)) : List τ :=
  events.filterMap fun
    | .put t => some t
    | _ => none

/-- The tasks that have ended, and how they have. -/
def ends (events : List (TaskEvent τ)) : List (τ × TaskEnd) :=
  events.filterMap fun
    | .ended t e => some (t, e)
    | _ => none

/-- How the tasks have ended that have been joined. -/
def joins (events : List (TaskEvent τ)) : List TaskEnd :=
  events.filterMap fun
    | .joined e => some e
    | _ => none

end TaskEvent

/-- A set of tasks, and whether somebody waits until all of them are joined. -/
structure TaskRun (τ : Type) where
  tasks : TaskSet τ
  joining : Bool

namespace TaskRun

open TaskEvent

variable {τ : Type} {own : τ → Option TaskEnd} {ending : τ → Bool → Option TaskEnd}
  {r r' q : TaskRun τ} {event : TaskEvent τ} {events more : List (TaskEvent τ)}

def start : TaskRun τ := ⟨.ofTasks [], false⟩

/-- What can happen next.  Nothing is put into the set while somebody waits. -/
inductive Step (own : τ → Option TaskEnd) : TaskRun τ → TaskEvent τ → TaskRun τ → Prop
  | puts (s : TaskSet τ) (t : τ) :
    Step own ⟨s, false⟩ (.put t) ⟨{ s with running := s.running ++ [t] }, false⟩
  | ends {s s' : TaskSet τ} {joining : Bool} {ending : τ → Bool → Option TaskEnd} {i : Nat} {t : τ}
    {e : TaskEnd} : (∀ t, ending t false = own t) → s.running[i]? = some t →
    ending t s.cancelled = some e → s.endAt? ending i = some s' →
    Step own ⟨s, joining⟩ (.ended t e) ⟨s', joining⟩
  | cancels (s : TaskSet τ) (joining : Bool) :
    Step own ⟨s, joining⟩ .cancelled ⟨s.cancel, joining⟩
  | calls (s : TaskSet τ) : Step own ⟨s, false⟩ .called ⟨s, true⟩
  | joins {s s' : TaskSet τ} {i : Nat} {e : TaskEnd} : s.ended[i]? = some e →
    s.joinAt? i = some s' → Step own ⟨s, true⟩ (.joined e) ⟨s', true⟩
  | returns {s : TaskSet τ} : s.size = 0 → Step own ⟨s, true⟩ .returned ⟨s, false⟩
  | givesUp (s : TaskSet τ) : Step own ⟨s, true⟩ .givenUp ⟨s, false⟩

/-- What can happen in a row. -/
inductive Steps (own : τ → Option TaskEnd) :
    TaskRun τ → List (TaskEvent τ) → TaskRun τ → Prop
  | nil (r : TaskRun τ) : Steps own r [] r
  | cons {r q r' : TaskRun τ} {event : TaskEvent τ} {events : List (TaskEvent τ)} :
    Step own r event q → Steps own q events r' → Steps own r (event :: events) r'

theorem Steps.append (h : Steps own r events q) (hmore : Steps own q more r') :
    Steps own r (events ++ more) r' := by
  induction h with
  | nil r => exact hmore
  | cons hstep _ ih => exact .cons hstep (ih hmore)

theorem exists_of_steps_append (h : Steps own r (events ++ more) r') :
    ∃ q, Steps own r events q ∧ Steps own q more r' := by
  induction events generalizing r with
  | nil => exact ⟨r, .nil r, h⟩
  | cons event events ih =>
    cases h with
    | cons hstep h =>
      obtain ⟨q, hfirst, hrest⟩ := ih h
      exact ⟨q, .cons hstep hfirst, hrest⟩

/-! ### What a set is, by what has happened -/

/-- The task fails or crashes by itself. -/
def IsFaulty (own : τ → Option TaskEnd) (t : τ) : Prop := ∃ e, own t = some e ∧ e ≠ .clean

structure Accounted (own : τ → Option TaskEnd) (r : TaskRun τ) (events : List (TaskEvent τ)) :
    Prop where
  /-- A task that was put into the set has ended, or is running. -/
  running : (puts events).Perm ((ends events).map (·.1) ++ r.tasks.running)
  /-- A task that has ended has been joined, or waits for that. -/
  ended : ((ends events).map (·.2)).Perm (joins events ++ r.tasks.ended)
  failed : r.tasks.failed = true ↔ ∃ e ∈ joins events, e ≠ .clean
  cancelled : r.tasks.cancelled = true ↔ .cancelled ∈ events ∨ r.tasks.failed = true
  /-- If nobody else cancels the set, the first fault is that of a task that has it by itself. -/
  faults : .cancelled ∉ events →
    ((∃ e ∈ (ends events).map (·.2), e ≠ .clean) ↔ ∃ t ∈ (ends events).map (·.1), IsFaulty own t)

theorem accounted_start : Accounted own (start : TaskRun τ) [] := by
  refine ⟨.nil, .nil, ?_, ?_, fun _ => ?_⟩
  · simp [start, TaskSet.ofTasks, joins]
  · simp [start, TaskSet.ofTasks]
  · simp [ends]

theorem perm_of_getElem? {α : Type} {l : List α} {i : Nat} {a : α} (h : l[i]? = some a) :
    l.Perm (a :: l.eraseIdx i) := by
  obtain ⟨hi, rfl⟩ := List.getElem?_eq_some_iff.mp h
  exact (List.getElem_cons_eraseIdx_perm hi).symm

theorem puts_append : puts (events ++ more) = puts events ++ puts more := List.filterMap_append

theorem ends_append : ends (events ++ more) = ends events ++ ends more := List.filterMap_append

theorem joins_append : joins (events ++ more) = joins events ++ joins more := List.filterMap_append

theorem accounted_ends {s : TaskSet τ} {joining : Bool} {i : Nat} {t : τ} {e : TaskEnd}
    (h : Accounted own ⟨s, joining⟩ events) (hown : ∀ t, ending t false = own t)
    (ht : s.running[i]? = some t) (he : ending t s.cancelled = some e) :
    Accounted own
      ⟨{ s with running := s.running.eraseIdx i, ended := s.ended ++ [e] }, joining⟩
      (events ++ [.ended t e]) := by
  have hends : ends (events ++ [.ended t e]) = ends events ++ [(t, e)] := ends_append
  have hjoins : joins (events ++ [TaskEvent.ended t e]) = joins events :=
    joins_append.trans (List.append_nil _)
  have hputs : puts (events ++ [TaskEvent.ended t e]) = puts events :=
    puts_append.trans (List.append_nil _)
  have hcancelled : .cancelled ∈ events ++ [.ended t e] ↔ .cancelled ∈ events := by simp
  refine ⟨?_, ?_, ?_, ?_, fun hout => ?_⟩
  · rw [hputs, hends, List.map_append, List.append_assoc]
    exact h.running.trans ((perm_of_getElem? ht).append_left _)
  · rw [hjoins, hends, List.map_append, ← List.append_assoc]
    exact h.ended.append_right _
  · rw [hjoins]
    exact h.failed
  · rw [hcancelled]
    exact h.cancelled
  · rw [hcancelled] at hout
    have hfaults := h.faults hout
    rw [hends, List.map_append, List.map_append]
    cases hs : s.cancelled with
    | false =>
      -- Nobody has cancelled the set yet, so the task ends by itself.
      rw [hs, hown] at he
      have hfaulty : e ≠ .clean ↔ IsFaulty own t := by
        simp [IsFaulty, he]
      simp only [List.mem_append, or_and_right, exists_or, hfaults]
      simp [hfaulty]
    | true =>
      -- A fault has cancelled it, which was there before.
      have hfailed : s.failed = true := (h.cancelled.mp hs).resolve_left hout
      obtain ⟨x, hx, hne⟩ := h.failed.mp hfailed
      have hbefore : ∃ e ∈ (ends events).map (·.2), e ≠ .clean :=
        ⟨x, h.ended.mem_iff.mpr (List.mem_append_left _ hx), hne⟩
      obtain ⟨u, hu, hfaulty⟩ := hfaults.mp hbefore
      obtain ⟨x, hx, hne⟩ := hbefore
      exact iff_of_true ⟨x, List.mem_append_left _ hx, hne⟩ ⟨u, List.mem_append_left _ hu, hfaulty⟩

theorem accounted_joins {s : TaskSet τ} {joining : Bool} {i : Nat} {e : TaskEnd}
    (h : Accounted own ⟨s, joining⟩ events) (he : s.ended[i]? = some e) :
    Accounted own ⟨{ s with ended := s.ended.eraseIdx i }.record e, joining⟩
      (events ++ [.joined e]) := by
  have hends : ends (events ++ [TaskEvent.joined e]) = ends events :=
    ends_append.trans (List.append_nil _)
  have hjoins : joins (events ++ [.joined e]) = joins events ++ [e] := joins_append
  have hputs : puts (events ++ [TaskEvent.joined e]) = puts events :=
    puts_append.trans (List.append_nil _)
  have hcancelled : .cancelled ∈ events ++ [.joined e] ↔ .cancelled ∈ events := by simp
  refine ⟨?_, ?_, ?_, ?_, fun hout => ?_⟩
  · rw [hputs, hends, TaskSet.running_record]
    exact h.running
  · rw [hends, hjoins, TaskSet.ended_record, List.append_assoc]
    exact h.ended.trans ((perm_of_getElem? he).append_left _)
  · have hfailed : s.failed = true ↔ _ := h.failed
    rw [TaskSet.failed_record, hjoins]
    simp only [hfailed, List.mem_append, List.mem_singleton, or_and_right, exists_or,
      exists_eq_left]
  · have hbefore : s.cancelled = true ↔ _ := h.cancelled
    rw [TaskSet.cancelled_record, TaskSet.failed_record, hcancelled]
    show s.cancelled = true ∨ _ ↔ _ ∨ s.failed = true ∨ _
    rw [hbefore, or_assoc]
  · rw [hends]
    exact h.faults (fun hmem => hout (hcancelled.mpr hmem))

theorem accounted_puts {s : TaskSet τ} {joining : Bool} (h : Accounted own ⟨s, joining⟩ events)
    (t : τ) :
    Accounted own ⟨{ s with running := s.running ++ [t] }, joining⟩ (events ++ [.put t]) := by
  have hends : ends (events ++ [TaskEvent.put t]) = ends events :=
    ends_append.trans (List.append_nil _)
  have hjoins : joins (events ++ [TaskEvent.put t]) = joins events :=
    joins_append.trans (List.append_nil _)
  have hputs : puts (events ++ [.put t]) = puts events ++ [t] := puts_append
  have hcancelled : .cancelled ∈ events ++ [.put t] ↔ .cancelled ∈ events := by simp
  refine ⟨?_, ?_, ?_, ?_, fun hout => ?_⟩
  · rw [hputs, hends, ← List.append_assoc]
    exact h.running.append_right _
  · rw [hends, hjoins]
    exact h.ended
  · rw [hjoins]
    exact h.failed
  · rw [hcancelled]
    exact h.cancelled
  · rw [hends]
    exact h.faults (fun hmem => hout (hcancelled.mpr hmem))

/-- What is neither put nor ended nor joined changes nothing but whether the set is cancelled. -/
theorem accounted_other {s : TaskSet τ} {joining : Bool} (h : Accounted own ⟨s, joining⟩ events)
    (hputs : puts [event] = []) (hends : ends [event] = []) (hjoins : joins [event] = [])
    {cancelled : Bool} (hcancelled : cancelled = true ↔ s.cancelled = true ∨ .cancelled = event)
    (joining' : Bool) :
    Accounted own ⟨{ s with cancelled }, joining'⟩ (events ++ [event]) := by
  have hends : ends (events ++ [event]) = ends events := by
    rw [ends_append, hends, List.append_nil]
  have hjoins : joins (events ++ [event]) = joins events := by
    rw [joins_append, hjoins, List.append_nil]
  refine ⟨?_, ?_, ?_, ?_, fun hout => ?_⟩
  · rw [puts_append, hputs, List.append_nil, hends]
    exact h.running
  · rw [hends, hjoins]
    exact h.ended
  · rw [hjoins]
    exact h.failed
  · have hbefore : s.cancelled = true ↔ _ := h.cancelled
    show cancelled = true ↔ _ ∨ s.failed = true
    rw [hcancelled, hbefore, List.mem_append, List.mem_singleton, or_right_comm]
  · rw [hends]
    exact h.faults fun hmem => hout (List.mem_append_left _ hmem)

theorem accounted_step (h : Accounted own r events) (hstep : Step own r event r') :
    Accounted own r' (events ++ [event]) := by
  -- Who waits, and for how long, does not matter to what the set is.
  cases hstep with
  | puts s t => exact accounted_puts h t
  | ends hown ht he hend =>
    rw [TaskSet.endAt?_eq _ _ ht he] at hend
    cases hend
    exact accounted_ends h hown ht he
  | cancels s joining => exact accounted_other h rfl rfl rfl (by simp) joining
  | calls s => exact accounted_other h rfl rfl rfl (by simp) true
  | joins he hjoin =>
    rw [TaskSet.joinAt?_eq _ _ he] at hjoin
    cases hjoin
    exact accounted_joins h he
  | returns hsize => exact accounted_other h rfl rfl rfl (by simp) false
  | givesUp s => exact accounted_other h rfl rfl rfl (by simp) false

theorem accounted_steps (h : Accounted own r events) (hsteps : Steps own r more r') :
    Accounted own r' (events ++ more) := by
  induction hsteps generalizing events with
  | nil r => rwa [List.append_nil]
  | cons hstep _ ih =>
    have hrest := ih (accounted_step h hstep)
    rwa [List.append_assoc] at hrest

/-! ### Joining all tasks as a run -/

/-- A set comes to be another by what happens in it, without anything that is done to it. -/
def Reaches (own : τ → Option TaskEnd) (r r' : TaskRun τ) : Prop :=
  ∃ more, Steps own r more r' ∧ puts more = [] ∧ .cancelled ∉ more

theorem Reaches.refl (r : TaskRun τ) : Reaches own r r := ⟨[], .nil r, rfl, List.not_mem_nil⟩

theorem Reaches.step (hstep : Step own r event q) (hputs : puts [event] = [])
    (hcancelled : event ≠ .cancelled) (h : Reaches own q r') : Reaches own r r' := by
  obtain ⟨more, hsteps, hmore, hnot⟩ := h
  refine ⟨event :: more, .cons hstep hsteps, ?_, ?_⟩
  · rw [← List.singleton_append, puts_append, hputs, hmore]
    rfl
  · rw [List.mem_cons, not_or]
    exact ⟨hcancelled.symm, hnot⟩

theorem Reaches.trans (h : Reaches own r q) (h' : Reaches own q r') : Reaches own r r' := by
  obtain ⟨more, hsteps, hputs, hnot⟩ := h
  obtain ⟨more', hsteps', hputs', hnot'⟩ := h'
  refine ⟨more ++ more', hsteps.append hsteps', ?_, ?_⟩
  · rw [puts_append, hputs, hputs']
    rfl
  · rw [List.mem_append, not_or]
    exact ⟨hnot, hnot'⟩

theorem reaches_ends (hown : ∀ t, ending t false = own t) (joining : Bool) (kept todo : List τ)
    (s : TaskSet τ) (hs : s.running = kept ++ todo) :
    Reaches own ⟨s, joining⟩ ⟨{ s with
      running := kept ++ todo.filter fun t => (ending t s.cancelled).isNone
      ended := s.ended ++ todo.filterMap fun t => ending t s.cancelled }, joining⟩ := by
  -- One after another they end at the place behind those that are kept, or are kept as well.
  induction todo generalizing kept s with
  | nil =>
    obtain ⟨running, ended, cancelled, failed⟩ := s
    obtain rfl : running = kept ++ [] := hs
    simpa using Reaches.refl _
  | cons t todo ih =>
    cases he : ending t s.cancelled with
    | none =>
      have hrest := ih (kept ++ [t]) s (by rw [hs, List.append_assoc]; rfl)
      simpa [he] using hrest
    | some e =>
      have ht : s.running[kept.length]? = some t := by simp [hs]
      have herase : s.running.eraseIdx kept.length = kept ++ todo := by
        rw [hs, List.eraseIdx_append_of_length_le (Nat.le_refl _), Nat.sub_self]
        rfl
      refine .step (.ends hown ht he (TaskSet.endAt?_eq _ _ ht he)) rfl (by simp) ?_
      have hrest := ih kept
        { s with running := s.running.eraseIdx kept.length, ended := s.ended ++ [e] } herase
      simpa [he] using hrest

theorem reaches_joinEnded (s : TaskSet τ) :
    Reaches own ⟨s, true⟩ ⟨s.joinEnded, true⟩ := by
  obtain ⟨es, hes⟩ : ∃ es, es = s.ended := ⟨_, rfl⟩
  induction es generalizing s with
  | nil =>
    have hsame : s.joinEnded = s := by
      rw [TaskSet.joinEnded, ← hes]
      exact congrArg (fun ended => { s with ended }) hes
    rw [hsame]
    exact .refl _
  | cons e es ih =>
    have he : s.ended[0]? = some e := by simp [← hes]
    have herase : s.ended.eraseIdx 0 = es := by rw [← hes]; rfl
    have hjoin := TaskSet.joinAt?_eq s e he
    rw [herase] at hjoin
    refine .step (.joins he hjoin) rfl (by simp) ?_
    have hrest := ih ({ s with ended := es }.record e) (by rw [TaskSet.ended_record])
    have hsame : ({ s with ended := es }.record e).joinEnded = s.joinEnded := by
      rw [TaskSet.joinEnded, TaskSet.joinEnded, TaskSet.ended_record, ← hes]
      cases e <;> rfl
    rwa [hsame] at hrest

theorem reaches_joinAll (hown : ∀ t, ending t false = own t) (r : TaskRun τ) :
    Reaches own r ⟨r.tasks.joinAll ending, true⟩ := by
  have hround (s : TaskSet τ) : Reaches own ⟨s, true⟩ ⟨(s.settle ending).joinEnded, true⟩ :=
    (reaches_ends hown true [] s.running s rfl).trans (reaches_joinEnded _)
  have hrounds := (hround r.tasks).trans (hround _)
  obtain ⟨s, joining⟩ := r
  cases joining with
  | true => exact hrounds
  | false => exact .step (.calls s) rfl (by simp) hrounds

/-! ### The verdict -/

theorem Accounted.of_size (h : Accounted own r events) (hsize : r.tasks.size = 0) :
    (puts events).Perm ((ends events).map (·.1)) ∧
      ((ends events).map (·.2)).Perm (joins events) := by
  obtain ⟨hrunning, hended⟩ := Nat.add_eq_zero_iff.mp hsize
  have hputs := h.running
  have hjoins := h.ended
  rw [List.length_eq_zero_iff.mp hrunning, List.append_nil] at hputs
  rw [List.length_eq_zero_iff.mp hended, List.append_nil] at hjoins
  exact ⟨hputs, hjoins⟩

theorem Accounted.exists_faulty (h : Accounted own r events) (hout : .cancelled ∉ events)
    (hfailed : r.tasks.failed = true) : ∃ t ∈ puts events, IsFaulty own t := by
  obtain ⟨e, he, hne⟩ := h.failed.mp hfailed
  have hends : e ∈ (ends events).map (·.2) := h.ended.mem_iff.mpr (List.mem_append_left _ he)
  obtain ⟨t, ht, hfaulty⟩ := (h.faults hout).mp ⟨e, hends, hne⟩
  exact ⟨t, h.running.mem_iff.mpr (List.mem_append_left _ ht), hfaulty⟩

/-- No fault is missed if only those are left that do not end by themselves or need not any more. -/
theorem Accounted.failed_iff (h : Accounted own r events) (hout : .cancelled ∉ events)
    (hended : r.tasks.ended = [])
    (hleft : ∀ t ∈ r.tasks.running, IsFaulty own t → r.tasks.cancelled = true) :
    r.tasks.failed = true ↔ ∃ t ∈ puts events, IsFaulty own t := by
  refine ⟨h.exists_faulty hout, ?_⟩
  rintro ⟨t, ht, hfaulty⟩
  rcases List.mem_append.mp (h.running.mem_iff.mp ht) with ht | ht
  · obtain ⟨e, he, hne⟩ := (h.faults hout).mpr ⟨t, ht, hfaulty⟩
    have hjoins : e ∈ joins events ++ r.tasks.ended := h.ended.mem_iff.mp he
    rw [hended, List.append_nil] at hjoins
    exact h.failed.mpr ⟨e, hjoins, hne⟩
  · exact (h.cancelled.mp (hleft t ht hfaulty)).resolve_left hout

theorem Accounted.failed_of_size (h : Accounted own r events) (hout : .cancelled ∉ events)
    (hsize : r.tasks.size = 0) :
    r.tasks.failed = true ↔ ∃ t ∈ puts events, IsFaulty own t := by
  obtain ⟨hrunning, hended⟩ := Nat.add_eq_zero_iff.mp hsize
  refine h.failed_iff hout (List.length_eq_zero_iff.mp hended) fun t ht => ?_
  rw [List.length_eq_zero_iff.mp hrunning] at ht
  cases ht

theorem Accounted.failed_joinAll (h : Accounted own r events) (hout : .cancelled ∉ events)
    (hown : ∀ t, ending t false = own t) :
    (r.tasks.joinAll ending).failed = true ↔ ∃ t ∈ puts events, IsFaulty own t := by
  obtain ⟨more, hsteps, hputs, hnot⟩ := reaches_joinAll hown r
  have hafter := accounted_steps h hsteps
  obtain ⟨hended, hleft⟩ := TaskSet.joinAll_left ending r.tasks
  have hout' : .cancelled ∉ events ++ more := by
    rw [List.mem_append, not_or]
    exact ⟨hout, hnot⟩
  have hfailed := hafter.failed_iff hout' hended ?_
  · rwa [puts_append, hputs, List.append_nil] at hfailed
  · rintro t ht ⟨e, he, -⟩
    -- A task that is left cannot end, so one with a fault by itself is left for being cancelled.
    refine Classical.byContradiction fun hcancelled => ?_
    have hnone := hleft t ht
    rw [Bool.eq_false_iff.mpr hcancelled, hown, he] at hnone
    cases hnone

/-- What is done later takes back neither a fault nor a cancellation, and clean ends add neither. -/
theorem Accounted.later (h : Accounted own r events) (hsteps : Steps own r more r') :
    (r.tasks.failed = true → r'.tasks.failed = true) ∧
      (.cancelled ∉ more → (∀ e ∈ joins more, e = .clean) →
        r'.tasks.cancelled = r.tasks.cancelled) := by
  have hafter := accounted_steps h hsteps
  have hfailed : r'.tasks.failed = true ↔
      r.tasks.failed = true ∨ ∃ e ∈ joins more, e ≠ .clean := by
    rw [hafter.failed, h.failed, joins_append]
    simp only [List.mem_append, or_and_right, exists_or]
  refine ⟨fun hr => hfailed.mpr (.inl hr), fun hnot hclean => ?_⟩
  have hnone : ¬∃ e ∈ joins more, e ≠ .clean := fun ⟨e, he, hne⟩ => hne (hclean e he)
  rw [Bool.eq_iff_iff, hafter.cancelled, h.cancelled, hfailed, or_iff_left hnone, List.mem_append,
    or_iff_left hnot]

theorem accounted_of_steps (h : Steps own start events r) : Accounted own r events :=
  accounted_steps accounted_start h

/-- Whoever has waited finds that no task is left. -/
theorem left_of_returned (h : Steps own start (events ++ .returned :: more) r) :
    (puts events).Perm ((ends events).map (·.1)) ∧
      ((ends events).map (·.2)).Perm (joins events) := by
  obtain ⟨q, hq, hrest⟩ := exists_of_steps_append h
  cases hrest with
  | cons hstep _ =>
    cases hstep with
    | returns hsize => exact (accounted_of_steps hq).of_size hsize

/-- **The verdict of a set of tasks**, in whatever order they end, and as often as somebody waits
until they are joined, or stops waiting before they are.  The waiting is over only when every task
that was put into the set has ended and is joined.  A set has failed if one that has been joined had
not ended cleanly; then it is cancelled, and both stay so.  Tasks that end cleanly leave the set as
it is.  Unless somebody else cancels the set, the order does not matter: once no task is left, the
set has failed if one of them had a fault by itself, and so it has once all tasks have been joined
that end at all, after which none is left that has ended or could end. -/
theorem verdict (h : Steps own start events r) :
    (∀ before after, events = before ++ .returned :: after →
      (puts before).Perm ((ends before).map (·.1)) ∧
      ((ends before).map (·.2)).Perm (joins before)) ∧
    (r.tasks.failed = true ↔ ∃ e ∈ joins events, e ≠ .clean) ∧
    (r.tasks.failed = true → r.tasks.cancelled = true) ∧
    (∀ more r', Steps own r more r' →
      (r.tasks.failed = true → r'.tasks.failed = true) ∧
      (.cancelled ∉ more → (∀ e ∈ joins more, e = .clean) →
        r'.tasks.cancelled = r.tasks.cancelled)) ∧
    (.cancelled ∉ events →
      (r.tasks.failed = true → ∃ t ∈ puts events, IsFaulty own t) ∧
      (r.tasks.size = 0 → (r.tasks.failed = true ↔ ∃ t ∈ puts events, IsFaulty own t)) ∧
      (∀ events' r', Steps own start events' r' → .cancelled ∉ events' →
        (puts events).Perm (puts events') → r.tasks.size = 0 → r'.tasks.size = 0 →
        r'.tasks.failed = r.tasks.failed) ∧
      ∀ ending, (∀ t, ending t false = own t) →
        Reaches own r ⟨r.tasks.joinAll ending, true⟩ ∧
        (r.tasks.joinAll ending).ended = [] ∧
        (∀ t ∈ (r.tasks.joinAll ending).running,
          ending t (r.tasks.joinAll ending).cancelled = none) ∧
        ((r.tasks.joinAll ending).failed = true ↔ ∃ t ∈ puts events, IsFaulty own t)) := by
  have hr := accounted_of_steps h
  refine ⟨?_, hr.failed, ?_, fun more r' hmore => hr.later hmore, fun hout => ⟨?_, ?_, ?_, ?_⟩⟩
  · rintro before after rfl
    exact left_of_returned h
  · intro hfailed
    exact hr.cancelled.mpr (.inr hfailed)
  · exact hr.exists_faulty hout
  · exact hr.failed_of_size hout
  · intro events' r' h' hout' hperm hsize hsize'
    have hr' := accounted_of_steps h'
    rw [Bool.eq_iff_iff, hr.failed_of_size hout hsize, hr'.failed_of_size hout' hsize']
    simp only [hperm.mem_iff]
  · intro ending hown
    obtain ⟨hended, hleft⟩ := TaskSet.joinAll_left ending r.tasks
    exact ⟨reaches_joinAll hown r, hended, hleft, hr.failed_joinAll hout hown⟩

/-- A task that fails is joined, and another one, which waits for ever, is cut off. -/
def failingEvents : List (TaskEvent Task) :=
  [.put (.cancellable .endless), .put (.plain (.atOnce .failure)), .called,
    .ended (.plain (.atOnce .failure)) .failure, .joined .failure,
    .ended (.cancellable .endless) .clean, .joined .clean, .returned]

theorem verdict_failing :
    Steps (Task.ending · false) start failingEvents ⟨⟨[], [], true, true⟩, false⟩ ∧
      ∃ t ∈ puts failingEvents, IsFaulty (Task.ending · false) t := by
  have hsteps : Steps (Task.ending · false) start failingEvents ⟨⟨[], [], true, true⟩, false⟩ :=
    .cons (.puts _ _) <| .cons (.puts _ _) <| .cons (.calls _) <|
    .cons (@Step.ends _ _ _ _ _ Task.ending 1 _ _ (fun _ => rfl) rfl rfl rfl) <|
    .cons (@Step.joins _ _ _ _ 0 _ rfl rfl) <|
    .cons (@Step.ends _ _ _ _ _ Task.ending 0 _ _ (fun _ => rfl) rfl rfl rfl) <|
    .cons (@Step.joins _ _ _ _ 0 _ rfl rfl) <| .cons (.returns rfl) <| .nil _
  have hout : .cancelled ∉ failingEvents := by simp [failingEvents]
  obtain ⟨-, -, -, -, hverdict⟩ := verdict hsteps
  exact ⟨hsteps, (hverdict hout).1 rfl⟩

end TaskRun

end LeaseKeeper
