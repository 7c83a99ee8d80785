/-
Each address of a pool goes its own way.

What a call does to an address is what a small automaton does that knows of this address alone:
whether it is live, whether the target wants it, whether its endpoint has ended by itself, and what
stopping or binding it leads to.

* `EndpointPool.reconciliations` — the pool after each of some calls, with the deeds of that call;
* `Situation.next`, `Situation.run` — the automaton; `Situation.next_congr` says what it reads;
* `kindsAt_prune`, `kindsAt_release`, `kindsAt_bindAll` — a pass, seen from one address;
* `reconcile_at`, `reconciliations_at` — a call, and so a run, seen from one address;
* `Report.about_ofDeeds` — what a report says about an address;
* `Agree`, `AgreeAll` — what two calls, or two runs, have in common at an address;
* `addresses_independent` — the pool as the product of the automata, and two runs that agree about
  an address.

Design notes: the numbers of the endpoints count those of all addresses, so a number does depend on
what happens elsewhere; `Deed.kind` leaves it out.
-/
import LeaseKeeper.Proofs.Endpoint.Reconciliation

namespace LeaseKeeper

/-- What is done to the endpoint of an address, whichever endpoint that is. -/
inductive Deed.Kind where
  | lost
  | stopped (result : Except StopFault Unit)
  | bound
  | notBound (e : IoFailure)

def Deed.kind : Deed → Deed.Kind
  | .lost _ _ => .lost
  | .stopped _ _ result => .stopped result
  | .bound _ _ => .bound
  | .notBound _ e => .notBound e

/-- What an attempt to bind an address is that has this result. -/
def Deed.Kind.ofBind : Except IoFailure Unit → Deed.Kind
  | .ok () => .bound
  | .error e => .notBound e

/-- What deeds do to an address. -/
def kindsAt (a : Address) (deeds : List Deed) : List Deed.Kind :=
  (deeds.filter fun d => d.address = a).map Deed.kind

/-! ### The automaton of an address -/

/-- What a call finds and meets at one address. -/
structure Situation where
  wanted : Bool
  hasEnded : Bool
  stop : Except StopFault Unit
  bind : Except IoFailure Unit

namespace Situation

def of (a : Address) (call : Outcomes × List Address) : Situation where
  wanted := call.2.contains a
  hasEnded := call.1.hasEnded a
  stop := call.1.stop a
  bind := call.1.bind a

/-- Whether an address without an endpoint is live after a call, and what is done to it. -/
def ofAbsent (s : Situation) : Bool × List Deed.Kind :=
  if s.wanted then (s.bind.isOk, [.ofBind s.bind]) else (false, [])

/-- The same for an address with an endpoint. -/
def ofLive (s : Situation) : Bool × List Deed.Kind :=
  if s.hasEnded then (s.ofAbsent.1, .lost :: s.ofAbsent.2)
  else if s.wanted then (true, [])
  else (false, [.stopped s.stop])

def next (s : Situation) (live : Bool) : Bool × List Deed.Kind :=
  if live then s.ofLive else s.ofAbsent

/-- The automaton over calls one after another. -/
def run : Bool → List Situation → List (Bool × List Deed.Kind)
  | _, [] => []
  | live, s :: ss => s.next live :: run (s.next live).1 ss

/-- The automaton reads the result of a stop only when it stops, and that of a bind only when it
binds. -/
theorem next_congr {s s' : Situation} {live : Bool} (hwanted : s.wanted = s'.wanted)
    (hended : live = true → s.hasEnded = s'.hasEnded)
    (hstop : live = true → s.hasEnded = false → s.wanted = false → s.stop = s'.stop)
    (hbind : s.wanted = true → (live && !s.hasEnded) = false → s.bind = s'.bind) :
    s.next live = s'.next live := by
  obtain ⟨wanted, ended, stop, bind⟩ := s
  obtain ⟨wanted', ended', stop', bind'⟩ := s'
  obtain rfl : wanted = wanted' := hwanted
  cases live with
  | false =>
    cases wanted with
    | false => rfl
    | true =>
      obtain rfl : bind = bind' := hbind rfl rfl
      rfl
  | true =>
    obtain rfl : ended = ended' := hended rfl
    cases ended with
    | false =>
      cases wanted with
      | false =>
        obtain rfl : stop = stop' := hstop rfl rfl rfl
        rfl
      | true => rfl
    | true =>
      cases wanted with
      | false => rfl
      | true =>
        obtain rfl : bind = bind' := hbind rfl rfl
        rfl

end Situation

variable {a : Address} {deeds : List Deed}

theorem kindsAt_append (first last : List Deed) :
    kindsAt a (first ++ last) = kindsAt a first ++ kindsAt a last := by
  rw [kindsAt, List.filter_append, List.map_append]
  rfl

theorem kindsAt_singleton (d : Deed) :
    kindsAt a [d] = if d.address = a then [d.kind] else [] := by
  by_cases hda : d.address = a <;> simp [kindsAt, hda]

/-- Deeds to different addresses, of which each is what its address calls for. -/
theorem kindsAt_of_forall {f : Address → Deed.Kind} (hnodup : (deeds.map Deed.address).Nodup)
    (h : ∀ d ∈ deeds, d.kind = f d.address) :
    kindsAt a deeds = if a ∈ deeds.map Deed.address then [f a] else [] := by
  induction deeds with
  | nil => rfl
  | cons d deeds ih =>
    obtain ⟨hd, htail⟩ := List.nodup_cons.mp hnodup
    have hrest := ih htail fun d' hd' => h d' (List.mem_cons_of_mem d hd')
    rw [← List.singleton_append, kindsAt_append, kindsAt_singleton, hrest]
    by_cases hda : d.address = a
    · rw [if_pos hda, ← hda, if_neg hd, if_pos (by simp), h d List.mem_cons_self]
      rfl
    · rw [if_neg hda, List.nil_append]
      simp [Ne.symm hda]

/-! ### What a report says about an address -/

namespace Report

/-- The part of a report that is about an address. -/
def about (a : Address) (r : Report) : Report where
  started := r.started.filter fun b => b = a
  stopped := r.stopped.filter fun b => b = a
  lost := r.lost.filter fun b => b = a
  failed := r.failed.filter fun x => x.address = a

/-- What a report is to say about an address to which this is done. -/
def ofKinds (a : Address) (kinds : List Deed.Kind) : Report where
  started := kinds.filterMap fun
    | .bound => some a
    | _ => none
  stopped := kinds.filterMap fun
    | .stopped _ => some a
    | _ => none
  lost := kinds.filterMap fun
    | .lost => some a
    | _ => none
  failed := kinds.filterMap fun
    | .stopped (.error e) => some (.stop a e)
    | .notBound e => some (.bind a e)
    | _ => none

theorem about_ofDeeds_singleton (d : Deed) : (ofDeeds [d]).about a = ofKinds a (kindsAt a [d]) := by
  rw [kindsAt_singleton]
  cases d with
  | lost b n =>
    by_cases hba : b = a <;> simp [ofDeeds, about, ofKinds, Deed.kind, Deed.address, hba]
  | stopped b n result =>
    cases result <;> by_cases hba : b = a <;>
      simp [ofDeeds, about, ofKinds, Deed.kind, Deed.address, EndpointFault.address, hba]
  | bound b n =>
    by_cases hba : b = a <;> simp [ofDeeds, about, ofKinds, Deed.kind, Deed.address, hba]
  | notBound b e =>
    by_cases hba : b = a <;>
      simp [ofDeeds, about, ofKinds, Deed.kind, Deed.address, EndpointFault.address, hba]

/-- A report says about an address what is done to it. -/
theorem about_ofDeeds (a : Address) (deeds : List Deed) :
    (ofDeeds deeds).about a = ofKinds a (kindsAt a deeds) := by
  induction deeds with
  | nil => rfl
  | cons d deeds ih =>
    have hone := about_ofDeeds_singleton (a := a) d
    simp only [about, ofKinds, Report.mk.injEq] at ih hone
    obtain ⟨hstarted, hstopped, hlost, hfailed⟩ := ih
    obtain ⟨hstarted', hstopped', hlost', hfailed'⟩ := hone
    rw [← List.singleton_append, kindsAt_append, ofDeeds_append]
    simp only [about, ofKinds, List.filter_append, List.filterMap_append, hstarted, hstopped,
      hlost, hfailed, hstarted', hstopped', hlost', hfailed']

end Report

namespace EndpointPool

variable {p p' : EndpointPool} {o : Outcomes} {target : List Address}

instance : Decidable (p.Remains o a) := inferInstanceAs (Decidable (_ ∧ _))

/-! ### A call, seen from one address -/

theorem kindsAt_prune (h : p.IsSound) (hasEnded : Address → Bool) :
    kindsAt a (p.prune hasEnded).2 =
      if p.serves a = true ∧ hasEnded a = true then [.lost] else [] := by
  have hlists := (lists_addresses h).filter (f := hasEnded) fun _ => Iff.rfl
  rw [kindsAt_of_forall (f := fun _ => .lost), address_prune]
  · simp only [hlists.mem_iff]
  · rw [address_prune]
    exact nodup_of_ascending hlists.ascending
  · intro d hd
    obtain ⟨e, -, rfl⟩ := List.mem_map.mp hd
    rfl

theorem kindsAt_release (h : p.IsSound) (stop : Address → Except StopFault Unit)
    (target : List Address) :
    kindsAt a (p.release stop target).2 =
      if a ∈ p.surplus target then [.stopped (stop a)] else [] := by
  rw [kindsAt_of_forall (f := fun a => .stopped (stop a)), address_release]
  · rw [address_release]
    exact (nodup_of_ascending h.ascending).filter _
  · intro d hd
    obtain ⟨e, -, rfl⟩ := List.mem_map.mp hd
    rfl

theorem kind_bindAll (bind : Address → Except IoFailure Unit) (as : List Address)
    (p : EndpointPool) : ∀ d ∈ (bindAll bind as p).2, d.kind = .ofBind (bind d.address) := by
  induction as generalizing p with
  | nil => exact fun d hd => absurd hd List.not_mem_nil
  | cons b as ih =>
    intro d hd
    cases hbind : bind b with
    | ok u =>
      rw [bindAll_ok hbind] at hd
      rcases List.mem_cons.mp hd with rfl | hd
      · rw [Deed.address, hbind]
        rfl
      · exact ih (p.add b) d hd
    | error e =>
      rw [bindAll_error hbind] at hd
      rcases List.mem_cons.mp hd with rfl | hd
      · rw [Deed.address, hbind]
        rfl
      · exact ih p d hd

theorem kindsAt_bindAll {as : List Address} (hnodup : as.Nodup)
    (bind : Address → Except IoFailure Unit) (p : EndpointPool) :
    kindsAt a (bindAll bind as p).2 = if a ∈ as then [.ofBind (bind a)] else [] := by
  rw [kindsAt_of_forall (f := fun a => .ofBind (bind a)) ?_ (kind_bindAll bind as p),
    address_bindAll]
  rw [address_bindAll]
  exact hnodup

/-- What a call does to an address, pass by pass. -/
theorem kindsAt_reconcile (h : p.IsSound) (o : Outcomes) (target : List Address) (a : Address) :
    kindsAt a (p.reconcile o target).2 =
      (if p.serves a && o.hasEnded a then [.lost] else []) ++
      (if p.Remains o a ∧ a ∉ target then [.stopped (o.stop a)] else []) ++
      (if a ∈ target ∧ ¬p.Remains o a then [.ofBind (o.bind a)] else []) := by
  rw [reconcile_eq, kindsAt_append, kindsAt_append, kindsAt_prune h,
    kindsAt_release (isSound_pruned h), kindsAt_bindAll nodup_toBind, ← toStop]
  simp only [(lists_toStop h).mem_iff, lists_toBind.mem_iff, Bool.and_eq_true]

theorem serves_reconcile_iff : (p.reconcile o target).1.serves a = true ↔
    a ∈ target ∧ (p.Remains o a ∨ o.bind a = .ok ()) := by
  rw [serves_reconcile]
  simp only [bind_mem_failed]
  refine and_congr_right fun ha => ?_
  cases hbind : o.bind a with
  | ok u => simp
  | error e => simp [ha]

/-- **A call is a step of the automaton of every address.** -/
theorem reconcile_at (h : p.IsSound) (o : Outcomes) (target : List Address) (a : Address) :
    ((p.reconcile o target).1.serves a, kindsAt a (p.reconcile o target).2) =
      (Situation.of a (o, target)).next (p.serves a) := by
  have hserves : (p.reconcile o target).1.serves a =
      (target.contains a && (p.serves a && !o.hasEnded a || (o.bind a).isOk)) := by
    rw [Bool.eq_iff_iff, serves_reconcile_iff, Remains, ← isOk_iff]
    simp
  rw [hserves, kindsAt_reconcile h, Situation.next]
  by_cases hwanted : a ∈ target <;> cases hlive : p.serves a <;> cases hended : o.hasEnded a <;>
    simp [Situation.of, Situation.ofLive, Situation.ofAbsent, Remains, hwanted, hlive, hended]

theorem serves_next (h : p.IsSound) (call : Outcomes × List Address) (a : Address) :
    (p.reconcile call.1 call.2).1.serves a =
      ((Situation.of a call).next (p.serves a)).1 :=
  congrArg Prod.fst (reconcile_at h call.1 call.2 a)

/-! ### Runs -/

/-- The pool after each of some calls, with the deeds of that call. -/
def reconciliations (p : EndpointPool) :
    List (Outcomes × List Address) → List (EndpointPool × List Deed)
  | [] => []
  | (o, target) :: calls =>
    p.reconcile o target :: (p.reconcile o target).1.reconciliations calls

/-- **A run is a run of the automaton of every address.** -/
theorem reconciliations_at (h : p.IsSound) (calls : List (Outcomes × List Address))
    (a : Address) :
    (p.reconciliations calls).map (fun c => (c.1.serves a, kindsAt a c.2)) =
      Situation.run (p.serves a) (calls.map (Situation.of a)) := by
  induction calls generalizing p with
  | nil => rfl
  | cons call calls ih =>
    rw [reconciliations, List.map_cons, reconcile_at h, ih (h.reconcile _ _), serves_next h]
    rfl

/-- What a call shows of an address. -/
structure View where
  live : Bool
  done : List Deed.Kind
  report : Report

/-- An address after a call that led to this pool by way of these deeds. -/
def view (a : Address) (c : EndpointPool × List Deed) : View :=
  ⟨c.1.serves a, kindsAt a c.2, (Report.ofDeeds c.2).about a⟩

/-- What the automaton of an address makes of a call. -/
def viewOf (a : Address) (x : Bool × List Deed.Kind) : View := ⟨x.1, x.2, Report.ofKinds a x.2⟩

theorem views_eq (h : p.IsSound) (calls : List (Outcomes × List Address)) (a : Address) :
    (p.reconciliations calls).map (view a) =
      (Situation.run (p.serves a) (calls.map (Situation.of a))).map (viewOf a) := by
  rw [← reconciliations_at h, List.map_map]
  refine List.map_congr_left fun c _ => ?_
  rw [view, Report.about_ofDeeds]
  rfl

/-! ### Two runs -/

/-- Two calls, of two pools, agree about an address in what they meet there: whether it is wanted,
and, where both find out, whether its endpoint has ended, and what stopping or binding it leads
to. -/
structure Agree (a : Address) (p p' : EndpointPool) (call call' : Outcomes × List Address) :
    Prop where
  wanted : a ∈ call.2 ↔ a ∈ call'.2
  hasEnded : p.serves a = true → p'.serves a = true → call.1.hasEnded a = call'.1.hasEnded a
  stop : p.Remains call.1 a ∧ a ∉ call.2 → p'.Remains call'.1 a ∧ a ∉ call'.2 →
    call.1.stop a = call'.1.stop a
  bind : a ∈ call.2 ∧ ¬p.Remains call.1 a → a ∈ call'.2 ∧ ¬p'.Remains call'.1 a →
    call.1.bind a = call'.1.bind a

/-- Two runs of as many calls, of which each two agree about an address. -/
def AgreeAll (a : Address) (p p' : EndpointPool) :
    (calls calls' : List (Outcomes × List Address)) → Prop
  | [], [] => True
  | call :: calls, call' :: calls' =>
    Agree a p p' call call' ∧
      AgreeAll a (p.reconcile call.1 call.2).1 (p'.reconcile call'.1 call'.2).1 calls calls'
  | _, _ => False

/-- The automaton makes the same of calls that agree about its address. -/
theorem Agree.next_eq {call call' : Outcomes × List Address} (h : Agree a p p' call call')
    (hserves : p.serves a = p'.serves a) :
    (Situation.of a call).next (p.serves a) = (Situation.of a call').next (p'.serves a) := by
  have hended (hlive : p.serves a = true) : call.1.hasEnded a = call'.1.hasEnded a :=
    h.hasEnded hlive (hserves ▸ hlive)
  have hremains : p.Remains call.1 a ↔ p'.Remains call'.1 a := by
    rw [Remains, Remains, ← hserves]
    exact and_congr_right fun hlive => by rw [hended hlive]
  rw [← hserves]
  refine Situation.next_congr ?_ hended (fun hlive hover ha => ?_) fun ha hgone => ?_
  · exact Bool.eq_iff_iff.mpr (by simpa [Situation.of] using h.wanted)
  · have hstays : p.Remains call.1 a := ⟨hlive, hover⟩
    have hout : a ∉ call.2 := by simpa [Situation.of] using ha
    exact h.stop ⟨hstays, hout⟩ ⟨hremains.mp hstays, not_congr h.wanted |>.mp hout⟩
  · have hgone : ¬p.Remains call.1 a := by simpa [Situation.of, Remains] using hgone
    have hin : a ∈ call.2 := by simpa [Situation.of] using ha
    exact h.bind ⟨hin, hgone⟩ ⟨h.wanted.mp hin, not_congr hremains |>.mp hgone⟩

/-- The automaton makes the same of runs that agree about its address. -/
theorem AgreeAll.run_eq (h : p.IsSound) (h' : p'.IsSound) (hserves : p.serves a = p'.serves a)
    {calls calls' : List (Outcomes × List Address)} (hagree : AgreeAll a p p' calls calls') :
    Situation.run (p.serves a) (calls.map (Situation.of a)) =
      Situation.run (p'.serves a) (calls'.map (Situation.of a)) := by
  induction calls generalizing p p' calls' with
  | nil =>
    cases calls' with
    | nil => rfl
    | cons call' calls' => exact hagree.elim
  | cons call calls ih =>
    cases calls' with
    | nil => exact hagree.elim
    | cons call' calls' =>
      obtain ⟨hcall, hrest⟩ := hagree
      have hnext := hcall.next_eq hserves
      have hafter : (p.reconcile call.1 call.2).1.serves a =
          (p'.reconcile call'.1 call'.2).1.serves a := by
        rw [serves_next h, serves_next h', hnext]
      have htail := ih (h.reconcile _ _) (h'.reconcile _ _) hafter hrest
      rw [serves_next h, serves_next h', hnext] at htail
      rw [List.map_cons, List.map_cons, Situation.run, Situation.run, hnext, htail]

/-- **Addresses are independent of each other.**  A pool that begins empty is the product of the
automata of all addresses: after each call an address is live, has had done to it and is reported to
have had done to it what its own automaton says, which is told of nothing else.  So two runs of as
many calls that agree about an address look the same there, with the same faults, whatever happens
to other addresses. -/
theorem addresses_independent :
    (∀ calls a, (empty.reconciliations calls).map (view a) =
      (Situation.run false (calls.map (Situation.of a))).map (viewOf a)) ∧
    ∀ a calls calls', AgreeAll a empty empty calls calls' →
      (empty.reconciliations calls).map (view a) = (empty.reconciliations calls').map (view a) := by
  refine ⟨views_eq isSound_empty, fun a calls calls' hagree => ?_⟩
  rw [views_eq isSound_empty, views_eq isSound_empty,
    hagree.run_eq isSound_empty isSound_empty rfl]

/-- The theorem where an address is bound, fails to stop and cannot be bound again.  Of the others,
one run tries to bind a first one in vain and then does, while the other run binds a second one,
which ends by itself. -/
theorem addresses_independent_mixed :
    let a : Address := .v4 ⟨1⟩
    let b : Address := .v4 ⟨2⟩
    let c : Address := .v6 ⟨1⟩
    let outcomes (ended unbound : List Address) : Outcomes := {
      hasEnded := fun x => ended.contains x
      stop := fun x => if x = a then .error (.timeout 5000) else .ok ()
      bind := fun x => if unbound.contains x then .error (.plain .addressInUse) else .ok () }
    let calls := [(outcomes [] [b], [a, b]), (outcomes [] [], [b]), (outcomes [] [a], [a, b])]
    let calls' := [(outcomes [] [], [a, c]), (outcomes [c] [c], [c]), (outcomes [] [a], [a])]
    AgreeAll a empty empty calls calls' ∧
    (empty.reconciliations calls).map (view a) = (empty.reconciliations calls').map (view a) ∧
    (empty.reconciliations calls').map (view a) =
      [⟨true, [.bound], ⟨[a], [], [], []⟩⟩,
        ⟨false, [.stopped (.error (.timeout 5000))], ⟨[], [a], [], [.stop a (.timeout 5000)]⟩⟩,
        ⟨false, [.notBound (.plain .addressInUse)],
          ⟨[], [], [], [.bind a (.plain .addressInUse)]⟩⟩] := by
  intro a b c outcomes calls calls'
  have hagree : AgreeAll a empty empty calls calls' :=
    ⟨⟨by decide, fun _ _ => rfl, fun _ _ => rfl, fun _ _ => rfl⟩,
      ⟨by decide, fun _ _ => rfl, fun _ _ => rfl, fun _ _ => rfl⟩,
      ⟨by decide, fun _ _ => rfl, fun _ _ => rfl, fun _ _ => rfl⟩, trivial⟩
  obtain ⟨hproduct, hsame⟩ := addresses_independent
  exact ⟨hagree, hsame a calls calls' hagree, hproduct calls' a⟩

end EndpointPool

end LeaseKeeper
