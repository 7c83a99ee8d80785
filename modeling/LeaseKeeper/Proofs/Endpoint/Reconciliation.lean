/-
What a reconciliation does, in full.

* `Reconciled` — what the pool and the report of a call have to be, said in terms of the addresses
  that were live, those that had ended, the target, and the outcomes;
* `reconcile_reconciled` — every call of a pool in order is like that;
* `ofDeeds_reconcile` — the report of a call, each list computed from what the call found.

Design notes: an address remains if it is live and has not ended by itself.  The three passes
compute their work from one another's results, and `mem_surplus` and `mem_missing` say what that
comes to: the work of all of them depends on the remaining addresses and the target alone.
-/
import LeaseKeeper.Proofs.Endpoint.Live
import LeaseKeeper.Proofs.Net.Listing

namespace LeaseKeeper

variable {a : Address} {as target : List Address} {P Q : Address → Prop}

/-! ### Reports -/

namespace Report

/-- The fault that stopping the endpoint of an address comes to. -/
def stopFault? (stop : Address → Except StopFault Unit) (a : Address) : Option EndpointFault :=
  match stop a with
  | .ok () => none
  | .error e => some (.stop a e)

/-- The fault that binding an address comes to. -/
def bindFault? (bind : Address → Except IoFailure Unit) (a : Address) : Option EndpointFault :=
  match bind a with
  | .ok () => none
  | .error e => some (.bind a e)

theorem ofDeeds_append (first last : List Deed) :
    ofDeeds (first ++ last) =
      ⟨(ofDeeds first).started ++ (ofDeeds last).started,
        (ofDeeds first).stopped ++ (ofDeeds last).stopped,
        (ofDeeds first).lost ++ (ofDeeds last).lost,
        (ofDeeds first).failed ++ (ofDeeds last).failed⟩ := by
  simp only [ofDeeds, List.filterMap_append]

variable {p : EndpointPool}

theorem ofDeeds_prune (hasEnded : Address → Bool) :
    ofDeeds (p.prune hasEnded).2 = ⟨[], [], p.addresses.filter hasEnded, []⟩ := by
  rw [← EndpointPool.addresses_filter hasEnded]
  simp only [ofDeeds, EndpointPool.prune, List.filterMap_map, Function.comp_def, Report.mk.injEq]
  refine ⟨by simp, by simp, by simp [List.filterMap_eq_map'], by simp⟩

theorem ofDeeds_release (stop : Address → Except StopFault Unit) (target : List Address) :
    ofDeeds (p.release stop target).2 =
      ⟨[], p.surplus target, [], (p.surplus target).filterMap (stopFault? stop)⟩ := by
  rw [EndpointPool.surplus, ← EndpointPool.addresses_filter fun a => !target.contains a]
  simp only [ofDeeds, EndpointPool.release, List.filterMap_map, Function.comp_def,
    Report.mk.injEq]
  refine ⟨by simp, by simp [List.filterMap_eq_map'], by simp, ?_⟩
  congr 1
  funext e
  rw [stopFault?]
  cases stop e.1 <;> rfl

theorem ofDeeds_bindAll (bind : Address → Except IoFailure Unit) (as : List Address)
    (p : EndpointPool) :
    ofDeeds (EndpointPool.bindAll bind as p).2 =
      ⟨as.filter fun a => (bind a).isOk, [], [], as.filterMap (bindFault? bind)⟩ := by
  induction as generalizing p with
  | nil => rfl
  | cons a as ih =>
    cases hbind : bind a with
    | ok u =>
      rw [EndpointPool.bindAll_ok hbind, ← List.singleton_append, ofDeeds_append, ih]
      simp [ofDeeds, bindFault?, hbind, Except.isOk, Except.toBool]
    | error e =>
      rw [EndpointPool.bindAll_error hbind, ← List.singleton_append, ofDeeds_append, ih]
      simp [ofDeeds, bindFault?, hbind, Except.isOk, Except.toBool]

end Report

/-- Whether a deed is an attempt to bind an address. -/
def Deed.isBinding : Deed → Bool
  | .lost _ _ | .stopped _ _ _ => false
  | .bound _ _ | .notBound _ _ => true

namespace EndpointPool

variable {p : EndpointPool} {o : Outcomes}

/-! ### The passes -/

theorem address_prune (hasEnded : Address → Bool) :
    (p.prune hasEnded).2.map Deed.address = p.addresses.filter hasEnded := by
  rw [← addresses_filter, prune, List.map_map]
  rfl

theorem address_release (stop : Address → Except StopFault Unit) (target : List Address) :
    (p.release stop target).2.map Deed.address = p.surplus target := by
  rw [surplus, ← addresses_filter fun a => !target.contains a, release, List.map_map]
  rfl

theorem address_bindAll (bind : Address → Except IoFailure Unit) (as : List Address)
    (p : EndpointPool) : (bindAll bind as p).2.map Deed.address = as := by
  induction as generalizing p with
  | nil => rfl
  | cons a as ih =>
    cases hbind : bind a with
    | ok u => rw [bindAll_ok hbind, List.map_cons, ih, Deed.address]
    | error e => rw [bindAll_error hbind, List.map_cons, ih, Deed.address]

theorem isBinding_prune {hasEnded : Address → Bool} {d : Deed} (h : d ∈ (p.prune hasEnded).2) :
    d.isBinding = false := by
  obtain ⟨e, -, rfl⟩ := List.mem_map.mp h
  rfl

theorem isBinding_release {stop : Address → Except StopFault Unit} {d : Deed}
    (h : d ∈ (p.release stop target).2) : d.isBinding = false := by
  obtain ⟨e, -, rfl⟩ := List.mem_map.mp h
  rfl

theorem isBinding_bindAll {bind : Address → Except IoFailure Unit} {d : Deed}
    (h : d ∈ (bindAll bind as p).2) : d.isBinding = true := by
  induction as generalizing p with
  | nil => cases h
  | cons a as ih =>
    cases hbind : bind a with
    | ok u =>
      rw [bindAll_ok hbind] at h
      rcases List.mem_cons.mp h with rfl | h
      · rfl
      · exact ih h
    | error e =>
      rw [bindAll_error hbind] at h
      rcases List.mem_cons.mp h with rfl | h
      · rfl
      · exact ih h

/-! ### The work of the passes -/

/-- Whether an address has a live endpoint that has not ended by itself. -/
def Remains (p : EndpointPool) (o : Outcomes) (a : Address) : Prop :=
  p.serves a = true ∧ o.hasEnded a = false

/-- The pool after the first pass. -/
def pruned (p : EndpointPool) (o : Outcomes) : EndpointPool := (p.prune o.hasEnded).1

/-- The pool after the second pass. -/
def released (p : EndpointPool) (o : Outcomes) (target : List Address) : EndpointPool :=
  ((p.pruned o).release o.stop (Address.ascending target)).1

/-- The addresses that the second pass stops. -/
def toStop (p : EndpointPool) (o : Outcomes) (target : List Address) : List Address :=
  (p.pruned o).surplus (Address.ascending target)

/-- The addresses that the third pass binds. -/
def toBind (p : EndpointPool) (o : Outcomes) (target : List Address) : List Address :=
  (p.released o target).missing (Address.ascending target)

theorem reconcile_eq (p : EndpointPool) (o : Outcomes) (target : List Address) :
    p.reconcile o target =
      ((bindAll o.bind (p.toBind o target) (p.released o target)).1,
        (p.prune o.hasEnded).2 ++ ((p.pruned o).release o.stop (Address.ascending target)).2 ++
          (bindAll o.bind (p.toBind o target) (p.released o target)).2) :=
  rfl

theorem endpoint?_pruned :
    (p.pruned o).endpoint? a = if o.hasEnded a then none else p.endpoint? a :=
  endpoint?_prune

theorem endpoint?_released :
    (p.released o target).endpoint? a =
      if a ∈ target then (p.pruned o).endpoint? a else none := by
  rw [released, endpoint?_release]
  simp only [Address.mem_ascending]

theorem serves_pruned : (p.pruned o).serves a = true ↔ p.Remains o a := by
  rw [serves, endpoint?_pruned, Remains, serves]
  cases o.hasEnded a <;> simp

theorem serves_released :
    (p.released o target).serves a = true ↔ a ∈ target ∧ p.Remains o a := by
  rw [serves, endpoint?_released, ← serves_pruned, serves]
  by_cases h : a ∈ target <;> simp [h]

theorem isSound_pruned (h : p.IsSound) : (p.pruned o).IsSound := h.prune

theorem isSound_released (h : p.IsSound) : (p.released o target).IsSound :=
  (isSound_pruned h).release

theorem lists_addresses (h : p.IsSound) : Lists p.addresses fun a => p.serves a = true :=
  ⟨h.ascending, fun _ => serves_iff_mem.symm⟩

theorem lists_toStop (h : p.IsSound) :
    Lists (p.toStop o target) fun a => p.Remains o a ∧ a ∉ target := by
  refine (lists_addresses (isSound_pruned h)).filter fun a => ?_
  rw [serves_pruned]
  simp

theorem lists_toBind : Lists (p.toBind o target) fun a => a ∈ target ∧ ¬p.Remains o a := by
  have htarget : Lists (Address.ascending target) fun a => a ∈ target :=
    ⟨Address.ascending_pairwise target, fun _ => Address.mem_ascending⟩
  refine htarget.filter fun a => ?_
  -- An address of the target is live at that time exactly if it remains.
  rw [Bool.not_eq_true', ← Bool.not_eq_true, serves_released]
  exact and_congr_right fun ha => not_congr (and_iff_right ha)

theorem absent_toBind : ∀ a ∈ p.toBind o target, (p.released o target).endpoint? a = none := by
  intro a ha
  have hserves := (List.mem_filter.mp ha).2
  rw [Bool.not_eq_true'] at hserves
  exact serves_eq_false_iff.mp hserves

theorem nodup_toBind : (p.toBind o target).Nodup := nodup_of_ascending lists_toBind.ascending

/-- A reconciliation keeps a pool in order. -/
theorem IsSound.reconcile (h : p.IsSound) (o : Outcomes) (target : List Address) :
    (p.reconcile o target).1.IsSound :=
  (isSound_released h).bindAll nodup_toBind absent_toBind

theorem ofDeeds_reconcile (p : EndpointPool) (o : Outcomes) (target : List Address) :
    Report.ofDeeds (p.reconcile o target).2 =
      ⟨(p.toBind o target).filter fun a => (o.bind a).isOk,
        p.toStop o target,
        p.addresses.filter o.hasEnded,
        (p.toStop o target).filterMap (Report.stopFault? o.stop) ++
          (p.toBind o target).filterMap (Report.bindFault? o.bind)⟩ := by
  rw [reconcile_eq, Report.ofDeeds_append, Report.ofDeeds_append, Report.ofDeeds_prune,
    Report.ofDeeds_release, Report.ofDeeds_bindAll]
  simp [toStop]

/-- What a reconciliation leaves of the endpoint of an address. -/
theorem endpoint?_reconcile (p : EndpointPool) (o : Outcomes) (target : List Address)
    (a : Address) :
    (a ∈ target ∧ ¬p.Remains o a ∧ o.bind a = .ok () →
      ∃ n, p.opened ≤ n ∧ (p.reconcile o target).1.endpoint? a = some n) ∧
    (¬(a ∈ target ∧ ¬p.Remains o a ∧ o.bind a = .ok ()) →
      (p.reconcile o target).1.endpoint? a = (p.released o target).endpoint? a) := by
  rw [reconcile_eq, ← and_assoc, ← lists_toBind.mem_iff]
  exact endpoint?_bindAll nodup_toBind absent_toBind a

/-! ### The whole call -/

/-- The faults with a property, in ascending order of their addresses. -/
structure ListsFaults (faults : List EndpointFault) (P : EndpointFault → Prop) : Prop where
  ascending : (faults.map EndpointFault.address).Pairwise (·.rank < ·.rank)
  mem_iff : ∀ x, x ∈ faults ↔ P x

/-- What a reconciliation of the pool `p` with a target leads to, when it finds and meets `o`: the
pool `q`, by way of the deeds. -/
structure Reconciled (p : EndpointPool) (o : Outcomes) (target : List Address)
    (q : EndpointPool) (deeds : List Deed) : Prop where
  lost : Lists (Report.ofDeeds deeds).lost fun a => p.serves a = true ∧ o.hasEnded a = true
  /-- Also those that did not stop cleanly. -/
  stopped : Lists (Report.ofDeeds deeds).stopped fun a => p.Remains o a ∧ a ∉ target
  started : Lists (Report.ofDeeds deeds).started fun a =>
    a ∈ target ∧ ¬p.Remains o a ∧ o.bind a = .ok ()
  /-- The faults of stopping come before those of binding. -/
  failed : ∃ stops binds, (Report.ofDeeds deeds).failed = stops ++ binds ∧
    ListsFaults stops (fun x => ∃ a e, x = .stop a e ∧ a ∈ (Report.ofDeeds deeds).stopped ∧
      o.stop a = .error e) ∧
    ListsFaults binds (fun x => ∃ a e, x = .bind a e ∧ a ∈ target ∧ ¬p.Remains o a ∧
      o.bind a = .error e)
  attempted : ∀ a, a ∈ target ∧ ¬p.Remains o a ↔
    a ∈ (Report.ofDeeds deeds).started ∨ ∃ e, .bind a e ∈ (Report.ofDeeds deeds).failed
  apart : ∀ a ∈ (Report.ofDeeds deeds).started, ∀ e,
    .bind a e ∉ (Report.ofDeeds deeds).failed
  live : Lists q.addresses fun a =>
    a ∈ target ∧ ∀ e, .bind a e ∉ (Report.ofDeeds deeds).failed
  /-- Whoever remains and is wanted keeps the same endpoint, to which nothing is done. -/
  kept : ∀ a n, p.endpoint? a = some n → o.hasEnded a = false → a ∈ target →
    q.endpoint? a = some n ∧ ∀ d ∈ deeds, d.address ≠ a
  fresh : ∀ a ∈ (Report.ofDeeds deeds).started, ∃ n, p.opened ≤ n ∧ q.endpoint? a = some n
  /-- All endpoints are given up or stopped before the first address is bound. -/
  bindsLast : ∃ before binding, deeds = before ++ binding ∧
    (∀ d ∈ before, d.isBinding = false) ∧ ∀ d ∈ binding, d.isBinding = true

theorem isOk_iff {ε : Type} {r : Except ε Unit} : r.isOk = true ↔ r = .ok () := by
  cases r with
  | ok u => exact ⟨fun _ => rfl, fun _ => rfl⟩
  | error e => exact ⟨fun h => absurd h Bool.false_ne_true, fun h => by cases h⟩

theorem stopFault?_eq_some_iff {stop : Address → Except StopFault Unit} {x : EndpointFault} :
    Report.stopFault? stop a = some x ↔ ∃ e, x = .stop a e ∧ stop a = .error e := by
  rw [Report.stopFault?]
  cases stop a with
  | ok u => simp
  | error e => simp [eq_comm]

theorem bindFault?_eq_some_iff {bind : Address → Except IoFailure Unit} {x : EndpointFault} :
    Report.bindFault? bind a = some x ↔ ∃ e, x = .bind a e ∧ bind a = .error e := by
  rw [Report.bindFault?]
  cases bind a with
  | ok u => simp
  | error e => simp [eq_comm]

/-- The faults of ascending addresses ascend. -/
theorem ascending_faults {fault? : Address → Option EndpointFault}
    (haddress : ∀ a x, fault? a = some x → x.address = a)
    (h : as.Pairwise (·.rank < ·.rank)) :
    ((as.filterMap fault?).map EndpointFault.address).Pairwise (·.rank < ·.rank) := by
  refine List.Pairwise.map _ (fun x y hxy => hxy) (List.Pairwise.filterMap fault? ?_ h)
  intro a b hab x hx y hy
  rw [haddress a x hx, haddress b y hy]
  exact hab

theorem listsFaults_stop (h : p.IsSound) :
    ListsFaults ((p.toStop o target).filterMap (Report.stopFault? o.stop)) fun x =>
      ∃ a e, x = .stop a e ∧ a ∈ p.toStop o target ∧ o.stop a = .error e where
  ascending := by
    refine ascending_faults (fun a x hx => ?_) (lists_toStop h).ascending
    obtain ⟨e, rfl, -⟩ := stopFault?_eq_some_iff.mp hx
    rfl
  mem_iff x := by
    simp only [List.mem_filterMap, stopFault?_eq_some_iff]
    constructor
    · rintro ⟨a, ha, e, rfl, he⟩
      exact ⟨a, e, rfl, ha, he⟩
    · rintro ⟨a, e, rfl, ha, he⟩
      exact ⟨a, ha, e, rfl, he⟩

theorem listsFaults_bind :
    ListsFaults ((p.toBind o target).filterMap (Report.bindFault? o.bind)) fun x =>
      ∃ a e, x = .bind a e ∧ a ∈ target ∧ ¬p.Remains o a ∧ o.bind a = .error e where
  ascending := by
    refine ascending_faults (fun a x hx => ?_) lists_toBind.ascending
    obtain ⟨e, rfl, -⟩ := bindFault?_eq_some_iff.mp hx
    rfl
  mem_iff x := by
    simp only [List.mem_filterMap, bindFault?_eq_some_iff, lists_toBind.mem_iff]
    constructor
    · rintro ⟨a, ⟨htarget, hremains⟩, e, rfl, he⟩
      exact ⟨a, e, rfl, htarget, hremains, he⟩
    · rintro ⟨a, e, rfl, htarget, hremains, he⟩
      exact ⟨a, ⟨htarget, hremains⟩, e, rfl, he⟩

/-- The report names a fault of binding for exactly those addresses that could not be bound. -/
theorem bind_mem_failed {e : IoFailure} :
    .bind a e ∈ (Report.ofDeeds (p.reconcile o target).2).failed ↔
      a ∈ target ∧ ¬p.Remains o a ∧ o.bind a = .error e := by
  rw [ofDeeds_reconcile, List.mem_append, listsFaults_bind.mem_iff]
  constructor
  · rintro (h | ⟨b, f, heq, h⟩)
    · obtain ⟨b, -, hb⟩ := List.mem_filterMap.mp h
      obtain ⟨f, heq, -⟩ := stopFault?_eq_some_iff.mp hb
      cases heq
    · cases heq
      exact h
  · exact fun h => .inr ⟨a, e, rfl, h⟩

theorem lists_started : Lists (Report.ofDeeds (p.reconcile o target).2).started fun a =>
    a ∈ target ∧ ¬p.Remains o a ∧ o.bind a = .ok () := by
  rw [ofDeeds_reconcile]
  refine lists_toBind.filter fun a => ?_
  rw [isOk_iff, and_assoc]

/-- After a reconciliation the live addresses are those of the target that need not, or could, be
bound. -/
theorem serves_reconcile : (p.reconcile o target).1.serves a = true ↔
    a ∈ target ∧ ∀ e, .bind a e ∉ (Report.ofDeeds (p.reconcile o target).2).failed := by
  obtain ⟨hbound, hother⟩ := endpoint?_reconcile p o target a
  simp only [bind_mem_failed]
  by_cases h : a ∈ target ∧ ¬p.Remains o a ∧ o.bind a = .ok ()
  · obtain ⟨n, -, hn⟩ := hbound h
    have hserves : (p.reconcile o target).1.serves a = true := by rw [serves, hn]; rfl
    refine iff_of_true hserves ⟨h.1, fun e he => ?_⟩
    rw [h.2.2] at he
    cases he.2.2
  · have hreleased : (p.reconcile o target).1.serves a = (p.released o target).serves a := by
      rw [serves, serves, hother h]
    rw [hreleased, serves_released]
    refine and_congr_right fun ha => ⟨fun hremains e he => he.2.1 hremains, fun hall => ?_⟩
    -- An address that does not remain has been bound, or there is a fault for it.
    refine Classical.byContradiction fun hremains => ?_
    cases hbind : o.bind a with
    | ok u => exact h ⟨ha, hremains, hbind⟩
    | error e => exact hall e ⟨ha, hremains, hbind⟩

/-- Nothing is done to an address of the target that remains. -/
theorem address_ne_of_remains (hremains : p.Remains o a) (ha : a ∈ target) :
    ∀ d ∈ (p.reconcile o target).2, d.address ≠ a := by
  rintro d hd rfl
  have hmem := List.mem_map_of_mem (f := Deed.address) hd
  rw [reconcile_eq, List.map_append, List.map_append, address_prune, address_release,
    address_bindAll, List.mem_append, List.mem_append] at hmem
  rcases hmem with (hprune | hrelease) | hbind
  · rw [List.mem_filter, hremains.2] at hprune
    cases hprune.2
  · rw [surplus, List.mem_filter] at hrelease
    simp [ha] at hrelease
  · exact (lists_toBind.mem_iff _).mp hbind |>.2 hremains

/-- **What a reconciliation does.**  Whatever a pool in order finds and meets, the call gives up
exactly the endpoints that have ended by themselves, stops exactly those of the others that the
target leaves out, and tries to bind exactly what is missing then.  Each address is listed in its
place in the report; afterwards the live addresses are those of the target but for the ones that
could not be bound; and endpoints that remain and are wanted are not touched. -/
theorem reconcile_reconciled (h : p.IsSound) (o : Outcomes) (target : List Address) :
    Reconciled p o target (p.reconcile o target).1 (p.reconcile o target).2 where
  lost := by
    rw [ofDeeds_reconcile]
    exact (lists_addresses h).filter fun a => Iff.rfl
  stopped := by
    rw [ofDeeds_reconcile]
    exact lists_toStop h
  started := lists_started
  failed := by
    rw [ofDeeds_reconcile]
    exact ⟨_, _, rfl, listsFaults_stop h, listsFaults_bind⟩
  attempted a := by
    simp only [bind_mem_failed, lists_started.mem_iff]
    constructor
    · rintro ⟨ha, hremains⟩
      cases hbind : o.bind a with
      | ok u => exact .inl ⟨ha, hremains, rfl⟩
      | error e => exact .inr ⟨e, ha, hremains, rfl⟩
    · rintro (⟨ha, hremains, -⟩ | ⟨e, ha, hremains, -⟩)
      · exact ⟨ha, hremains⟩
      · exact ⟨ha, hremains⟩
  apart a ha e he := by
    have hok := ((lists_started.mem_iff a).mp ha).2.2
    have herror := (bind_mem_failed.mp he).2.2
    rw [hok] at herror
    cases herror
  live := ⟨(h.reconcile o target).ascending, fun a => serves_iff_mem.symm.trans serves_reconcile⟩
  kept a n hn hended ha := by
    have hremains : p.Remains o a := ⟨by rw [serves, hn]; rfl, hended⟩
    refine ⟨?_, address_ne_of_remains hremains ha⟩
    rw [(endpoint?_reconcile p o target a).2 fun hbound => hbound.2.1 hremains,
      endpoint?_released, if_pos ha, endpoint?_pruned, hended, hn]
    rfl
  fresh a ha := (endpoint?_reconcile p o target a).1 ((lists_started.mem_iff a).mp ha)
  bindsLast := by
    refine ⟨_, _, rfl, fun d hd => ?_, fun d hd => isBinding_bindAll hd⟩
    rcases List.mem_append.mp hd with hd | hd
    · exact isBinding_prune hd
    · exact isBinding_release hd

/-- The theorem where all comes together: of four live endpoints the first has ended, the second is
to be stopped and fails at that, the third stays, and the fourth stops cleanly, while the first and
a new address are wanted, of which only one can be bound. -/
theorem reconcile_reconciled_mixed :
    let p : EndpointPool := ⟨[(.v4 ⟨1⟩, 4), (.v4 ⟨2⟩, 0), (.v4 ⟨3⟩, 7), (.v6 ⟨1⟩, 2)], 8⟩
    let o : Outcomes := {
      hasEnded := fun a => a = .v4 ⟨1⟩
      stop := fun a => if a = .v4 ⟨2⟩ then .error (.timeout 5000) else .ok ()
      bind := fun a => if a = .v6 ⟨2⟩ then .error (.plain .addressInUse) else .ok () }
    let target : List Address := [.v6 ⟨2⟩, .v4 ⟨3⟩, .v4 ⟨1⟩]
    p.IsSound ∧
    Reconciled p o target ⟨[(.v4 ⟨1⟩, 8), (.v4 ⟨3⟩, 7)], 9⟩
      [.lost (.v4 ⟨1⟩) 4, .stopped (.v4 ⟨2⟩) 0 (.error (.timeout 5000)),
        .stopped (.v6 ⟨1⟩) 2 (.ok ()), .bound (.v4 ⟨1⟩) 8,
        .notBound (.v6 ⟨2⟩) (.plain .addressInUse)] := by
  intro p o target
  have hsound : p.IsSound := ⟨by decide, by decide⟩
  exact ⟨hsound, reconcile_reconciled hsound o target⟩

end EndpointPool

end LeaseKeeper
