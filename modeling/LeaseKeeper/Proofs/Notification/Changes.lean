/-
Every committed change is announced once to each subscriber.

A run is a list of changes that are handed in, in each of which the storage may fail and each
subscriber may fail.  What becomes of a change is decided by the storage alone: `handled` lists it,
and the rest is said in terms of that list.

* `StoreRun.commit`, `StoreRun.commitAll` — changes one after another, with what they return;
* `Handled.trace` — what is to happen in one call;
* `commitAll_eq` — a run returns what the storage says, and its events are the traces of its calls,
  one after another;
* `countP_isNotice_trace`, `moment_of_trace` — how often a subscriber is called, and what it finds;
* `commitAll_agrees` — the answers of the subscribers make no difference to anything else;
* `Announced` — what can be said of a run;
* `announced_commitAll` — it holds of every run on a storage that replaces its set as a whole or
  not at all;
* `announced_once` — the same, together with the case of a lease file.

Design notes: the answer of a subscriber is a function of what it can see when it is called.  That
the new set is both current and durable by then is said by the arguments of that function.
-/
import LeaseKeeper.Notification.Subscriber
import LeaseKeeper.Proofs.Store.Agreement

namespace LeaseKeeper

/-- A call that hands a lease set in: what the storage meets in it, and how the subscribers
answer. -/
structure Change (σ ι : Type) where
  now : Instant
  how : ι
  leases : LeaseSet
  answers : Answers σ

/-- The change without the answers of the subscribers. -/
def Change.plain {σ ι : Type} (c : Change σ ι) : Instant × ι × LeaseSet := (c.now, c.how, c.leases)

variable {σ ι V : Type} {storage : ι → Storage σ} {subscribers : List Subscriber}

namespace StoreRun

/-- Commits a change and tells the subscribers. -/
def commit (storage : ι → Storage σ) (subscribers : List Subscriber) (r : StoreRun σ)
    (c : Change σ ι) : Except StoreError LeaseSet × StoreRun σ :=
  let o := commitChange (storage c.how) c.answers subscribers c.leases r.store r.world
  (o.result,
    { store := o.store
      world := o.world
      gauge := gaugeAfter c.now r.gauge o.events
      events := r.events ++ o.events })

/-- Commits changes one after another, and lists what the calls return. -/
def commitAll (storage : ι → Storage σ) (subscribers : List Subscriber) :
    StoreRun σ → List (Change σ ι) → List (Except StoreError LeaseSet) × StoreRun σ
  | r, [] => ([], r)
  | r, c :: cs =>
    let (result, next) := r.commit storage subscribers c
    let (results, last) := commitAll storage subscribers next cs
    (result :: results, last)

end StoreRun

/-! ### What becomes of a change -/

/-- A change, with what the storage says to it and the world then. -/
structure Handled (σ ι : Type) where
  change : Change σ ι
  outcome : Except StoreError Unit
  world : σ

/-- Hands a change to the storage. -/
def Change.handle (storage : ι → Storage σ) (w : σ) (c : Change σ ι) : Handled σ ι where
  change := c
  outcome := ((storage c.how).persist c.leases w).1
  world := ((storage c.how).persist c.leases w).2

/-- What becomes of changes one after another, beginning in a world. -/
def handled (storage : ι → Storage σ) : σ → List (Change σ ι) → List (Handled σ ι)
  | _, [] => []
  | w, c :: cs => c.handle storage w :: handled storage (c.handle storage w).world cs

namespace Handled

/-- What the call returns. -/
def result (h : Handled σ ι) : Except StoreError LeaseSet := h.outcome.map fun _ => h.change.leases

/-- What is to happen in the call.  After a success the set is persisted and published, every
observer sees it, and then every subscriber is called, each in the order of registration.  After a
failure there is nothing else. -/
def trace (observers : List Observer) (subscribers : List Subscriber) (h : Handled σ ι) :
    List Event :=
  match h.outcome with
  | .ok () =>
    .persisted h.change.leases :: .published h.change.leases ::
      ((observers.map fun o => .observed o h.change.leases) ++
        subscribers.zipIdx.map fun n =>
          .notified n.2 (h.change.answers n.2 n.1 h.change.leases h.world))
  | .error e => [.persistFailed e]

end Handled

/-- The sets that calls with these results have committed. -/
def committed (results : List (Except StoreError LeaseSet)) : List LeaseSet :=
  results.filterMap Except.toOption

/-- The last set that was committed, or the one that was there before. -/
def lastCommitted (s : LeaseSet) (results : List (Except StoreError LeaseSet)) : LeaseSet :=
  (committed results).getLast?.getD s

/-- The world after the last of these calls, or the one that was there before. -/
def worldAfter (w : σ) (hs : List (Handled σ ι)) : σ := (hs.getLast?.map Handled.world).getD w

/-! ### Events -/

/-- Whether the subscriber with the number `i` is called. -/
def Event.isNotice (i : Nat) : Event → Bool
  | .notified k _ => k == i
  | _ => false

/-- The event without what a subscriber has answered. -/
def Event.withoutAnswer : Event → Event
  | .notified i _ => .notified i (.ok ())
  | e => e

/-- The sets that have been persisted, in order. -/
def persistedIn (events : List Event) : List LeaseSet :=
  events.filterMap fun
    | .persisted s => some s
    | _ => none

/-- The sets that have been published, in order. -/
def publishedIn (events : List Event) : List LeaseSet :=
  events.filterMap fun
    | .published s => some s
    | _ => none

section

variable {r q : StoreRun σ} {c d : Change σ ι} {cs ds : List (Change σ ι)} {h : Handled σ ι}
  {hs : List (Handled σ ι)} {observers : List Observer} {s : LeaseSet} {w : σ} {i : Nat}

/-! ### One call -/

theorem tellFrom_eq (answers : Answers σ) (s : LeaseSet) (w : σ) (i : Nat) (ns : List Subscriber) :
    tellFrom answers s w i ns =
      (ns.zipIdx i).map fun n => .notified n.2 (answers n.2 n.1 s w) := by
  induction ns generalizing i with
  | nil => rfl
  | cons n ns ih => rw [tellFrom, ih, List.zipIdx_cons, List.map_cons]

/-- What a call leads to is what becomes of the change. -/
theorem commit_eq (storage : ι → Storage σ) (subscribers : List Subscriber) (r : StoreRun σ)
    (c : Change σ ι) :
    let h := c.handle storage r.world
    let trace := h.trace r.store.observers subscribers
    r.commit storage subscribers c =
      (h.result,
        { store := { r.store with current := h.result.toOption.getD r.store.current }
          world := h.world
          gauge := gaugeAfter c.now r.gauge trace
          events := r.events ++ trace }) := by
  cases hpersist : (storage c.how).persist c.leases r.world with
  | mk outcome w' =>
    have hhandle : c.handle storage r.world = ⟨c, outcome, w'⟩ := by
      rw [Change.handle, hpersist]
    rw [hhandle]
    cases outcome with
    | ok u =>
      simp only [StoreRun.commit, commitChange, LeaseStore.replace, hpersist, tellFrom_eq]
      rfl
    | error e =>
      simp only [StoreRun.commit, commitChange, LeaseStore.replace, hpersist]
      rfl

theorem lastCommitted_cons (s : LeaseSet) (result : Except StoreError LeaseSet)
    (results : List (Except StoreError LeaseSet)) :
    lastCommitted s (result :: results) = lastCommitted (result.toOption.getD s) results := by
  rw [lastCommitted, lastCommitted]
  cases result with
  | error e => rfl
  | ok t => exact congrArg (Option.getD · s) List.getLast?_cons

theorem getD_map_getLast?_cons {α β : Type} (f : α → β) (a : α) (l : List α) (b : β) :
    ((a :: l).getLast?.map f).getD b = (l.getLast?.map f).getD (f a) := by
  rw [List.getLast?_cons, Option.map_some, Option.getD_some, Option.getD_map]

theorem worldAfter_cons (w : σ) (h : Handled σ ι) (hs : List (Handled σ ι)) :
    worldAfter w (h :: hs) = worldAfter h.world hs := getD_map_getLast?_cons _ _ _ _

/-- The events of a run are the traces of its calls, one after another. -/
theorem commitAll_eq (storage : ι → Storage σ) (subscribers : List Subscriber) (r : StoreRun σ)
    (cs : List (Change σ ι)) :
    let hs := handled storage r.world cs
    let last := (r.commitAll storage subscribers cs).2
    (r.commitAll storage subscribers cs).1 = hs.map Handled.result ∧
    last.events = r.events ++ hs.flatMap (Handled.trace r.store.observers subscribers) ∧
    last.store =
      { r.store with current := lastCommitted r.store.current (hs.map Handled.result) } ∧
    last.world = worldAfter r.world hs := by
  induction cs generalizing r with
  | nil => exact ⟨rfl, (List.append_nil _).symm, rfl, rfl⟩
  | cons c cs ih =>
    have hcommit := commit_eq storage subscribers r c
    obtain ⟨hresults, hevents, hstore, hworld⟩ := ih (r.commit storage subscribers c).2
    simp only [hcommit] at hresults hevents hstore hworld
    simp only [StoreRun.commitAll, handled, hcommit]
    refine ⟨?_, ?_, ?_, ?_⟩
    · rw [hresults, List.map_cons]
    · rw [hevents, List.flatMap_cons, List.append_assoc]
    · rw [hstore, List.map_cons, lastCommitted_cons]
    · rw [hworld, worldAfter_cons]

/-! ### Calls of one subscriber -/

theorem countP_isNotice_zipIdx (answers : Nat → Subscriber → Except SignalError Unit)
    (i k : Nat) (ns : List Subscriber) :
    ((ns.zipIdx k).map fun n => Event.notified n.2 (answers n.2 n.1)).countP (Event.isNotice i) =
      if k ≤ i ∧ i < k + ns.length then 1 else 0 := by
  induction ns generalizing k with
  | nil =>
    have hout : ¬(k ≤ i ∧ i < k + 0) := by omega
    exact (if_neg hout).symm
  | cons n ns ih =>
    rw [List.zipIdx_cons, List.map_cons, List.countP_cons, ih, List.length_cons]
    by_cases hk : k = i
    · have hrest : ¬(k + 1 ≤ i ∧ i < k + 1 + ns.length) := by omega
      have hhere : k ≤ i ∧ i < k + (ns.length + 1) := by omega
      have hnotice : Event.isNotice i (.notified k (answers k n)) = true := beq_iff_eq.mpr hk
      rw [if_neg hrest, if_pos hhere, if_pos hnotice]
    · have hiff : (k + 1 ≤ i ∧ i < k + 1 + ns.length) ↔ (k ≤ i ∧ i < k + (ns.length + 1)) := by
        omega
      have hnotice : ¬Event.isNotice i (.notified k (answers k n)) = true := fun h =>
        hk (beq_iff_eq.mp h)
      rw [if_neg hnotice, Nat.add_zero]
      simp only [hiff]

/-- A subscriber is called once in a call that succeeds, and not at all in one that fails. -/
theorem countP_isNotice_trace (i : Nat) (observers : List Observer) (h : Handled σ ι) :
    (h.trace observers subscribers).countP (Event.isNotice i) =
      if i < subscribers.length ∧ h.result.isOk = true then 1 else 0 := by
  obtain ⟨c, outcome, w⟩ := h
  cases outcome with
  | error e => exact (if_neg fun hok => nomatch hok.2).symm
  | ok u =>
    have hobserved : (observers.map fun o => Event.observed o c.leases).countP (Event.isNotice i) =
        0 := by
      refine List.countP_eq_zero.mpr fun e he => ?_
      obtain ⟨o, -, rfl⟩ := List.mem_map.mp he
      exact Bool.false_ne_true
    have hnotices := countP_isNotice_zipIdx (fun k n => c.answers k n c.leases w) i 0 subscribers
    simp only [Handled.trace, List.countP_cons, List.countP_append, hobserved, hnotices]
    simp [Event.isNotice, Handled.result, Except.map, Except.isOk, Except.toBool]

theorem countP_isNotice_flatMap (i : Nat) (observers : List Observer) (hs : List (Handled σ ι)) :
    (hs.flatMap (Handled.trace observers subscribers)).countP (Event.isNotice i) =
      if i < subscribers.length then (hs.map Handled.result).countP Except.isOk else 0 := by
  induction hs with
  | nil => exact (ite_self 0).symm
  | cons h hs ih =>
    rw [List.flatMap_cons, List.countP_append, ih, countP_isNotice_trace, List.map_cons,
      List.countP_cons]
    by_cases hi : i < subscribers.length
    · simp only [hi, true_and, if_true]
      exact Nat.add_comm _ _
    · simp only [hi, false_and, if_false]

/-! ### What a subscriber finds -/

/-- An event among those of all calls belongs to one call, after the calls before it. -/
theorem exists_of_flatMap {f : Handled σ ι → List Event} {before rest : List Event} {e : Event}
    (hsplit : hs.flatMap f = before ++ e :: rest) :
    ∃ earlier h, h ∈ hs ∧ ∃ front back, f h = front ++ e :: back ∧
      before = earlier ++ front := by
  induction hs generalizing before with
  | nil => simp at hsplit
  | cons h hs ih =>
    rw [List.flatMap_cons] at hsplit
    rcases List.append_eq_append_iff.mp hsplit with ⟨mid, rfl, hmid⟩ | ⟨mid, hfront, hmid⟩
    · -- the event comes after this call
      obtain ⟨earlier, h', hmem, front, back, htrace, rfl⟩ := ih hmid
      exact ⟨f h ++ earlier, h', List.mem_cons_of_mem h hmem, front, back, htrace,
        (List.append_assoc _ _ _).symm⟩
    · cases mid with
      | nil =>
        obtain ⟨earlier, h', hmem, front, back, htrace, hbefore⟩ :=
          ih (show hs.flatMap f = [] ++ e :: rest from hmid.symm)
        rw [List.append_nil] at hfront
        refine ⟨f h ++ earlier, h', List.mem_cons_of_mem h hmem, front, back, htrace, ?_⟩
        rw [List.append_assoc, ← hbefore, List.append_nil, hfront]
      | cons e' mid =>
        obtain ⟨rfl, -⟩ := List.cons.inj hmid
        exact ⟨[], h, List.mem_cons_self, before, mid, hfront, rfl⟩

theorem persistedIn_eq_nil {events : List Event} (hnone : ∀ e ∈ events, ∀ s, e ≠ .persisted s) :
    persistedIn events = [] := by
  refine List.filterMap_eq_nil_iff.mpr fun e he => ?_
  cases e with
  | persisted s => exact absurd rfl (hnone _ he s)
  | _ => rfl

theorem publishedIn_eq_nil {events : List Event} (hnone : ∀ e ∈ events, ∀ s, e ≠ .published s) :
    publishedIn events = [] := by
  refine List.filterMap_eq_nil_iff.mpr fun e he => ?_
  cases e with
  | published s => exact absurd rfl (hnone _ he s)
  | _ => rfl

/-- When a subscriber is called, the new set has been persisted and published, and nothing else has
been since. -/
theorem moment_of_trace {front back : List Event} {answer : Except SignalError Unit}
    (htrace : h.trace observers subscribers = front ++ .notified i answer :: back) :
    h.result = .ok h.change.leases ∧
    (∃ n, subscribers[i]? = some n ∧
      answer = h.change.answers i n h.change.leases h.world) ∧
    persistedIn front = [h.change.leases] ∧ publishedIn front = [h.change.leases] := by
  obtain ⟨c, outcome, w⟩ := h
  cases outcome with
  | error e =>
    have hmem : Event.notified i answer ∈ [Event.persistFailed e] := by
      rw [show [Event.persistFailed e] = front ++ .notified i answer :: back from htrace]
      exact List.mem_append_right _ List.mem_cons_self
    cases List.mem_singleton.mp hmem
  | ok u =>
    match front, htrace with
    | [], htrace => cases (List.cons.inj htrace).1
    | [_], htrace => cases (List.cons.inj (List.cons.inj htrace).2).1
    | _ :: _ :: front, htrace =>
      obtain ⟨rfl, hrest⟩ := List.cons.inj htrace
      obtain ⟨rfl, -⟩ := List.cons.inj hrest
      have hlater : ((observers.map fun o => Event.observed o c.leases) ++
          subscribers.zipIdx.map fun n => .notified n.2 (c.answers n.2 n.1 c.leases w)) =
          front ++ .notified i answer :: back := (List.cons.inj hrest).2
      have hmem : Event.notified i answer ∈ front ++ .notified i answer :: back :=
        List.mem_append_right _ List.mem_cons_self
      -- Neither the observers nor the subscribers persist or publish anything.
      have hquiet : ∀ e ∈ front, (∀ s, e ≠ .persisted s) ∧ ∀ s, e ≠ .published s := by
        intro e he
        have hin : e ∈ front ++ .notified i answer :: back := List.mem_append_left _ he
        rw [← hlater, List.mem_append, List.mem_map, List.mem_map] at hin
        obtain ⟨o, -, rfl⟩ | ⟨n, -, rfl⟩ := hin
        · exact ⟨nofun, nofun⟩
        · exact ⟨nofun, nofun⟩
      have hpersisted := persistedIn_eq_nil fun e he => (hquiet e he).1
      have hpublished := publishedIn_eq_nil fun e he => (hquiet e he).2
      refine ⟨rfl, ?_, congrArg (c.leases :: ·) hpersisted, congrArg (c.leases :: ·) hpublished⟩
      rw [← hlater, List.mem_append, List.mem_map, List.mem_map] at hmem
      obtain ⟨o, -, ho⟩ | ⟨n, hn, heq⟩ := hmem
      · cases ho
      · cases heq
        exact ⟨n.1, List.mem_zipIdx_iff_getElem?.mp hn, rfl⟩

/-! ### The answers make no difference -/

theorem gaugeAfter_withoutAnswer (now : Instant) (value : Nat) (events : List Event) :
    gaugeAfter now value (events.map Event.withoutAnswer) = gaugeAfter now value events := by
  rw [gaugeAfter, List.foldl_map]
  refine congrFun (congrFun (congrArg List.foldl ?_) value) events
  funext value e
  cases e <;> rfl

/-- But for the answers, the trace of a call depends on the set and on what the storage says. -/
theorem trace_withoutAnswer (observers : List Observer) (subscribers : List Subscriber)
    (h h' : Handled σ ι) (houtcome : h.outcome = h'.outcome)
    (hleases : h.change.leases = h'.change.leases) :
    (h.trace observers subscribers).map Event.withoutAnswer =
      (h'.trace observers subscribers).map Event.withoutAnswer := by
  rw [Handled.trace, Handled.trace, ← houtcome, ← hleases]
  cases h.outcome with
  | error e => rfl
  | ok u =>
    simp only [List.map_cons, List.map_append, List.map_map]
    rfl

/-- Two runs that are the same but for what subscribers have answered. -/
structure StoreRun.Agrees (r q : StoreRun σ) : Prop where
  store : r.store = q.store
  world : r.world = q.world
  gauge : r.gauge = q.gauge
  events : r.events.map Event.withoutAnswer = q.events.map Event.withoutAnswer

theorem commit_agrees (storage : ι → Storage σ) (subscribers : List Subscriber) (hrun : r.Agrees q)
    (hplain : c.plain = d.plain) :
    (r.commit storage subscribers c).1 = (q.commit storage subscribers d).1 ∧
    (r.commit storage subscribers c).2.Agrees (q.commit storage subscribers d).2 := by
  obtain ⟨now, how, leases, answers⟩ := c
  obtain ⟨now', how', leases', answers'⟩ := d
  cases hplain
  obtain ⟨store, world, gauge, events⟩ := r
  obtain ⟨store', world', gauge', events'⟩ := q
  obtain ⟨rfl, rfl, rfl, hevents⟩ := hrun
  have htrace := trace_withoutAnswer store.observers subscribers
    (Change.handle storage world ⟨now, how, leases, answers⟩)
    (Change.handle storage world ⟨now, how, leases, answers'⟩) rfl rfl
  rw [commit_eq, commit_eq]
  refine ⟨rfl, rfl, rfl, ?_, ?_⟩
  · have hgauge := congrArg (gaugeAfter now gauge) htrace
    rwa [gaugeAfter_withoutAnswer, gaugeAfter_withoutAnswer] at hgauge
  · simp only [List.map_append]
    rw [hevents, htrace]

theorem commitAll_agrees (hrun : r.Agrees q) (hplain : cs.map Change.plain = ds.map Change.plain) :
    (r.commitAll storage subscribers cs).1 = (q.commitAll storage subscribers ds).1 ∧
    (r.commitAll storage subscribers cs).2.Agrees (q.commitAll storage subscribers ds).2 := by
  induction cs generalizing r q ds with
  | nil =>
    cases ds with
    | nil => exact ⟨rfl, hrun⟩
    | cons d ds => cases hplain
  | cons c cs ih =>
    cases ds with
    | nil => cases hplain
    | cons d ds =>
      obtain ⟨hfirst, hrest⟩ := List.cons.inj hplain
      obtain ⟨hresult, hnext⟩ := commit_agrees storage subscribers hrun hfirst
      obtain ⟨hresults, hlast⟩ := ih hnext hrest
      refine ⟨?_, hlast⟩
      simp only [StoreRun.commitAll, hresult, hresults]

/-! ### What is durable -/

section

variable {sound : σ → Prop} {durable : σ → V} {image : LeaseSet → V}

theorem durable_handle (hatomic : Atomic storage sound durable image) (hsound : sound w)
    (c : Change σ ι) :
    sound (c.handle storage w).world ∧
    durable (c.handle storage w).world =
      ((c.handle storage w).result.toOption.map image).getD (durable w) := by
  cases hpersist : (storage c.how).persist c.leases w with
  | mk outcome w' =>
    have hhandle : c.handle storage w = ⟨c, outcome, w'⟩ := by
      rw [Change.handle, hpersist]
    rw [hhandle]
    cases outcome with
    | ok u => exact hatomic.persisted hsound hpersist
    | error e => exact hatomic.failed hsound hpersist

/-- After a run, the last committed set is the durable one, and so it is in each call that succeeds
when the subscribers are called. -/
theorem durable_handled (hatomic : Atomic storage sound durable image) (hsound : sound w)
    (cs : List (Change σ ι)) :
    let hs := handled storage w cs
    durable (worldAfter w hs) =
      ((committed (hs.map Handled.result)).getLast?.map image).getD (durable w) ∧
    ∀ h ∈ hs, h.result = .ok h.change.leases → durable h.world = image h.change.leases := by
  induction cs generalizing w with
  | nil => exact ⟨rfl, fun h hmem => absurd hmem List.not_mem_nil⟩
  | cons c cs ih =>
    obtain ⟨hnext, hhere⟩ := durable_handle hatomic hsound c
    obtain ⟨hlast, hlater⟩ := ih hnext
    simp only [handled]
    refine ⟨?_, fun h hmem hok => ?_⟩
    · rw [worldAfter_cons, hlast, hhere, List.map_cons]
      cases (c.handle storage w).result with
      | error e => rfl
      | ok t => exact (getD_map_getLast?_cons image t _ _).symm
    · rcases List.mem_cons.mp hmem with rfl | hmem
      · rw [hhere, hok]
        rfl
      · exact hlater h hmem hok

/-! ### Every run -/

/-- What can be said of a run of the changes `cs` that has begun with a store in the world `w` when
the gauge was at `value`, has returned `results` and has ended as `last`. -/
structure Announced (storage : ι → Storage σ) (durable : σ → V) (image : LeaseSet → V)
    (subscribers : List Subscriber) (store : LeaseStore) (w : σ) (value : Nat)
    (cs : List (Change σ ι)) (results : List (Except StoreError LeaseSet)) (last : StoreRun σ) :
    Prop where
  returned : results = (handled storage w cs).map Handled.result
  events : last.events =
    (handled storage w cs).flatMap (Handled.trace store.observers subscribers)
  stored : last.store = { store with current := lastCommitted store.current results }
  disk : durable last.world = ((committed results).getLast?.map image).getD (durable w)
  /-- Each subscriber has been called once for each call that has returned a set. -/
  attempts : ∀ i, last.events.countP (Event.isNotice i) =
    if i < subscribers.length then results.countP Except.isOk else 0
  /-- A subscriber that is called finds the new set in the store and on the disk. -/
  moment : ∀ before i answer rest, last.events = before ++ .notified i answer :: rest →
    ∃ h ∈ handled storage w cs, ∃ n,
      h.result = .ok h.change.leases ∧ subscribers[i]? = some n ∧
      answer = h.change.answers i n h.change.leases h.world ∧
      durable h.world = image h.change.leases ∧
      (persistedIn before).getLast? = some h.change.leases ∧
      (publishedIn before).getLast? = some h.change.leases
  /-- Whatever the subscribers had answered instead, only their answers would be different. -/
  regardless : ∀ others : List (Change σ ι), others.map Change.plain = cs.map Change.plain →
    let other := StoreRun.commitAll storage subscribers ⟨store, w, value, []⟩ others
    other.1 = results ∧ other.2.Agrees last

theorem announced_commitAll (hatomic : Atomic storage sound durable image) (hsound : sound w)
    (subscribers : List Subscriber) (store : LeaseStore) (value : Nat) (cs : List (Change σ ι)) :
    let run := StoreRun.commitAll storage subscribers ⟨store, w, value, []⟩ cs
    Announced storage durable image subscribers store w value cs run.1 run.2 := by
  obtain ⟨hresults, hevents, hstore, hworld⟩ :=
    commitAll_eq storage subscribers ⟨store, w, value, []⟩ cs
  obtain ⟨hdisk, hcalls⟩ := durable_handled hatomic hsound cs
  refine ⟨hresults, hevents, ?_, ?_, ?_, ?_, ?_⟩
  · rw [hstore, hresults]
  · rw [hworld, hdisk, hresults]
  · intro i
    rw [hevents, List.nil_append, countP_isNotice_flatMap, hresults]
  · intro before i answer rest hsplit
    rw [hevents, List.nil_append] at hsplit
    obtain ⟨earlier, h, hmem, front, back, htrace, rfl⟩ := exists_of_flatMap hsplit
    obtain ⟨hok, ⟨n, hn, hanswer⟩, hpersisted, hpublished⟩ := moment_of_trace htrace
    refine ⟨h, hmem, n, hok, hn, hanswer, hcalls h hmem hok, ?_, ?_⟩
    · rw [persistedIn, List.filterMap_append, ← persistedIn, ← persistedIn, hpersisted,
        List.getLast?_concat]
    · rw [publishedIn, List.filterMap_append, ← publishedIn, ← publishedIn, hpublished,
        List.getLast?_concat]
  · intro others hplain
    exact commitAll_agrees ⟨rfl, rfl, rfl, rfl⟩ hplain

end

end

/-- Whatever the storage and the subscribers answer: each call that returns a set has persisted and
published it, shown it to every observer and then called every subscriber once; a call that fails
has done nothing else; and what subscribers answer has no effect on anything but the record of
their answers.  On a lease file, each subscriber finds the text of the new set in it. -/
theorem announced_once :
    (∀ {σ ι V : Type} (storage : ι → Storage σ) (sound : σ → Prop) (durable : σ → V)
      (image : LeaseSet → V), Atomic storage sound durable image →
      ∀ w, sound w → ∀ subscribers store value cs,
      let run := StoreRun.commitAll storage subscribers ⟨store, w, value, []⟩ cs
      Announced storage durable image subscribers store w value cs run.1 run.2) ∧
    ∀ path fs opened, fs.Grounded → LeaseStore.ofStorage (fileStorage path) fs = .ok opened →
      ∀ subscribers observers value cs,
      let store := { opened with observers }
      let run := StoreRun.commitAll (fileStorageWith · path) subscribers ⟨store, fs, value, []⟩ cs
      Announced (fileStorageWith · path) (FileSystem.read · (.ofText path))
        (fun s => .ok (LeaseFile.encode s)) subscribers store fs value cs run.1 run.2 := by
  constructor
  · intro σ ι V storage sound durable image hatomic w hsound subscribers store value cs
    exact announced_commitAll hatomic hsound subscribers store value cs
  · intro path fs opened hgrounded hopen subscribers observers value cs
    obtain ⟨found, hload, -⟩ := ofStorage_eq_ok hopen
    have hlasting : Lasting path fs := lasting_of_load hgrounded hload
    exact announced_commitAll (fileStorage_atomic path) hlasting subscribers _ value cs

/-- Changes of a store that holds the lease of the printer: the laptop is to take its place, which
fails, and then it is to be added. -/
def replacing {σ ι : Type} (answers : Answers σ) (failing succeeding : ι) : List (Change σ ι) :=
  [⟨.epoch, failing, [laptop], answers⟩, ⟨.epoch, succeeding, [printer, laptop], answers⟩]

/-- Two subscribers, the first of which fails, are told of these changes in memory and in a lease
file. -/
theorem announced_once_replacing :
    (let run := StoreRun.commitAll (memoryStorageWith "m") [.custom true, .custom false]
      ⟨⟨[printer], [.gauge]⟩, ⟨some [printer], none⟩, 0, []⟩
      (replacing (ProcessTable.answers {}) (some .storageFull) none)
     run.1.map Except.toOption = [none, some [printer, laptop]] ∧
     run.2.store.current = [printer, laptop] ∧ run.2.world.kept = some [printer, laptop] ∧
     run.2.events.countP (Event.isNotice 1) = 1) ∧
    (holding [printer]).Grounded ∧
    LeaseStore.ofStorage (fileStorage "/d/l") (holding [printer]) = .ok ⟨[printer], []⟩ ∧
    (let run := StoreRun.commitAll (fileStorageWith · "/d/l") [.custom true, .custom false]
      ⟨⟨[printer], []⟩, holding [printer], 0, []⟩
      (replacing (ProcessTable.answers {}) (some ⟨.create, .plain .storageFull⟩) none)
     run.2.events = [.persistFailed (.notPersisted "/d/l" (.plain .storageFull)),
       .persisted [printer, laptop], .published [printer, laptop],
       .notified 0 (.error (.processNotFound "custom")), .notified 1 (.ok ())]) := by
  have hmemory := announced_once.1 (memoryStorageWith "m") _ _ _ (memoryStorage_atomic "m")
    ⟨some [printer], none⟩ trivial [.custom true, .custom false] ⟨[printer], [.gauge]⟩ 0
    (replacing (ProcessTable.answers {}) (some .storageFull) none)
  have hfile := announced_once.2 "/d/l" (holding [printer]) ⟨[printer], []⟩
    (grounded_holding _) ofStorage_holding_printer [.custom true, .custom false] [] 0
    (replacing (ProcessTable.answers {}) (some ⟨.create, .plain .storageFull⟩) none)
  have hreturned := hmemory.returned
  refine ⟨⟨?_, ?_, hmemory.disk, hmemory.attempts 1⟩, grounded_holding _,
    ofStorage_holding_printer, ?_⟩
  · exact congrArg (List.map Except.toOption) hreturned
  · exact congrArg LeaseStore.current hmemory.stored
  · have hevents := hfile.events
    simp only [replacing, handled, Change.handle, persist_holding_create,
      persist_holding] at hevents
    exact hevents

end LeaseKeeper
