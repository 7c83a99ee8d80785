/-
An endpoint that is wanted and goes on serves without interruption.

* `endpoint?_of_wanted`, `endpoint?_reconciliations` — a call, and so a run, leaves such an
  endpoint alone;
* `Report.unbound` — the addresses that a call could not bind;
* `prune_eq_self`, `release_eq_self`, `reconcile_eq_bindAll` — a call of a pool that holds nothing
  but what the target wants only binds;
* `missing_reconcile` — what a call leaves missing is what it could not bind;
* `uninterrupted` — runs, and two calls in a row with the same target.

Design notes: an endpoint is known by its number, which no other endpoint of the pool ever gets.
-/
import LeaseKeeper.Proofs.Endpoint.Independence

namespace LeaseKeeper

/-- The address whose binding has failed. -/
def EndpointFault.unbound? : EndpointFault → Option Address
  | .bind a _ => some a
  | .stop _ _ => none

/-- The addresses that could not be bound. -/
def Report.unbound (r : Report) : List Address := r.failed.filterMap EndpointFault.unbound?

namespace EndpointPool

variable {p : EndpointPool} {o : Outcomes} {a : Address} {n : Nat} {target : List Address}

/-! ### An endpoint that is wanted -/

/-- A call leaves an endpoint alone that is wanted and has not ended by itself. -/
theorem endpoint?_of_wanted (hn : p.endpoint? a = some n) (hended : o.hasEnded a = false)
    (ha : a ∈ target) :
    (p.reconcile o target).1.endpoint? a = some n ∧
      ∀ d ∈ (p.reconcile o target).2, d.address ≠ a := by
  have hremains : p.Remains o a := ⟨by rw [serves, hn]; rfl, hended⟩
  refine ⟨?_, address_ne_of_remains hremains ha⟩
  rw [(endpoint?_reconcile p o target a).2 fun hbound => hbound.2.1 hremains, endpoint?_released,
    if_pos ha, endpoint?_pruned, hended, hn]
  rfl

theorem endpoint?_reconciliations {calls : List (Outcomes × List Address)}
    (hn : p.endpoint? a = some n) (hcalls : ∀ c ∈ calls, a ∈ c.2 ∧ c.1.hasEnded a = false) :
    ∀ x ∈ p.reconciliations calls,
      x.1.endpoint? a = some n ∧ ∀ d ∈ x.2, d.address ≠ a := by
  induction calls generalizing p with
  | nil => exact fun x hx => absurd hx List.not_mem_nil
  | cons call calls ih =>
    obtain ⟨⟨ha, hended⟩, hrest⟩ := List.forall_mem_cons.mp hcalls
    have hcall := endpoint?_of_wanted hn hended ha
    intro x hx
    rcases List.mem_cons.mp hx with rfl | hx
    · exact hcall
    · exact ih hcall.1 hrest x hx

/-- A report says nothing about an address to which nothing is done. -/
theorem about_eq_empty {deeds : List Deed} (h : ∀ d ∈ deeds, d.address ≠ a) :
    (Report.ofDeeds deeds).about a = ⟨[], [], [], []⟩ := by
  have hnone : kindsAt a deeds = [] := by
    rw [kindsAt, List.filter_eq_nil_iff.mpr fun d hd => by simpa using h d hd]
    rfl
  rw [Report.about_ofDeeds, hnone]
  rfl

/-! ### Two calls in a row -/

/-- A pass that picks none of the live addresses takes nothing away. -/
theorem filter_live {P : Address → Bool} (h : ∀ a, p.serves a = true → P a = true) :
    (p.live.filter fun e => P e.1) = p.live ∧ (p.live.filter fun e => !P e.1) = [] := by
  have hlive : ∀ e ∈ p.live, P e.1 = true := fun e he =>
    h e.1 (serves_iff_mem.mpr (List.mem_map_of_mem he))
  exact ⟨List.filter_eq_self.mpr hlive, List.filter_eq_nil_iff.mpr fun e he => by simp [hlive e he]⟩

theorem prune_eq_self {hasEnded : Address → Bool}
    (h : ∀ a, p.serves a = true → hasEnded a = false) : p.prune hasEnded = (p, []) := by
  obtain ⟨hstay, hgo⟩ := filter_live (P := fun a => !hasEnded a) fun a ha => by rw [h a ha]; rfl
  simp only [Bool.not_not] at hgo
  rw [prune, hstay, hgo]
  rfl

theorem release_eq_self {stop : Address → Except StopFault Unit}
    (h : ∀ a, p.serves a = true → a ∈ target) : p.release stop target = (p, []) := by
  obtain ⟨hstay, hgo⟩ := filter_live fun a ha => List.contains_iff_mem.mpr (h a ha)
  rw [release, hstay, hgo]
  rfl

theorem reconcile_eq_bindAll (hended : ∀ a, p.serves a = true → o.hasEnded a = false)
    (hwanted : ∀ a, p.serves a = true → a ∈ target) :
    p.reconcile o target = bindAll o.bind (p.missing (Address.ascending target)) p := by
  have hrelease : p.release o.stop (Address.ascending target) = (p, []) :=
    release_eq_self fun a ha => Address.mem_ascending.mpr (hwanted a ha)
  simp only [reconcile, prune_eq_self hended, hrelease, List.nil_append]

theorem unbound_reconcile (p : EndpointPool) (o : Outcomes) (target : List Address) :
    (Report.ofDeeds (p.reconcile o target).2).unbound =
      (p.toBind o target).filter fun a => !(o.bind a).isOk := by
  have hstop (a : Address) : (Report.stopFault? o.stop a).bind EndpointFault.unbound? = none := by
    rw [Report.stopFault?]
    cases o.stop a <;> rfl
  have hbind (a : Address) : (Report.bindFault? o.bind a).bind EndpointFault.unbound? =
      Option.guard (fun a => !(o.bind a).isOk) a := by
    rw [Report.bindFault?]
    cases hresult : o.bind a <;>
      simp [Option.guard, hresult, EndpointFault.unbound?, Except.isOk, Except.toBool]
  rw [Report.unbound, ofDeeds_reconcile, List.filterMap_append, List.filterMap_filterMap,
    List.filterMap_filterMap]
  simp only [hstop, hbind]
  simp

/-- What a call leaves missing is what it could not bind. -/
theorem missing_reconcile (p : EndpointPool) (o : Outcomes) (target : List Address) :
    (p.reconcile o target).1.missing (Address.ascending target) =
      (Report.ofDeeds (p.reconcile o target).2).unbound := by
  rw [unbound_reconcile, toBind, missing, missing, List.filter_filter]
  refine List.filter_congr fun a ha => ?_
  have htarget := Address.mem_ascending.mp ha
  rw [Bool.eq_iff_iff, Bool.and_eq_true, Bool.not_eq_true', Bool.not_eq_true', Bool.not_eq_true',
    ← Bool.not_eq_true, ← Bool.not_eq_true, ← Bool.not_eq_true, serves_reconcile_iff,
    serves_released, isOk_iff, and_iff_right htarget, and_iff_right htarget, not_or, and_comm]

/-- What a second call with the same target does, if nothing has ended in between. -/
theorem reconcile_reconcile (p : EndpointPool) (o o' : Outcomes) (target : List Address)
    (hended : ∀ a, (p.reconcile o target).1.serves a = true → o'.hasEnded a = false) :
    (p.reconcile o target).1.reconcile o' target =
      bindAll o'.bind (Report.ofDeeds (p.reconcile o target).2).unbound
        (p.reconcile o target).1 := by
  rw [reconcile_eq_bindAll hended fun a ha => (serves_reconcile_iff.mp ha).1, missing_reconcile]

/-- **Service is not interrupted.**  Whatever happens to other addresses, an endpoint that every
call of a run wants and that does not end by itself is the same to the end of the run: it is not
stopped, its address is not bound again, and no report lists it.  So a second call with the same
target, if no endpoint has ended in between, stops nothing and tries to bind exactly what the first
could not bind, and if that is nothing, then it does nothing at all. -/
theorem uninterrupted (p : EndpointPool) :
    (∀ a n calls, p.endpoint? a = some n →
      (∀ c ∈ calls, a ∈ c.2 ∧ c.1.hasEnded a = false) →
      ∀ x ∈ p.reconciliations calls, x.1.endpoint? a = some n ∧
        (∀ d ∈ x.2, d.address ≠ a) ∧ (Report.ofDeeds x.2).about a = ⟨[], [], [], []⟩) ∧
    ∀ o o' target,
      let first := p.reconcile o target
      let second := first.1.reconcile o' target
      (∀ a, first.1.serves a = true → o'.hasEnded a = false) →
      (Report.ofDeeds second.2).stopped = [] ∧ (Report.ofDeeds second.2).lost = [] ∧
      (∀ d ∈ second.2, d.isBinding = true) ∧
      second.2.map Deed.address = (Report.ofDeeds first.2).unbound ∧
      ((Report.ofDeeds first.2).unbound = [] →
        second = (first.1, []) ∧ (Report.ofDeeds second.2).isIdle = true) := by
  constructor
  · intro a n calls hn hcalls x hx
    obtain ⟨hsame, hnone⟩ := endpoint?_reconciliations hn hcalls x hx
    exact ⟨hsame, hnone, about_eq_empty hnone⟩
  · intro o o' target first second hended
    have hsecond : second = bindAll o'.bind (Report.ofDeeds first.2).unbound first.1 :=
      reconcile_reconcile p o o' target hended
    have hreport := Report.ofDeeds_bindAll o'.bind (Report.ofDeeds first.2).unbound first.1
    rw [hsecond]
    refine ⟨congrArg Report.stopped hreport, congrArg Report.lost hreport,
      fun d hd => isBinding_bindAll hd, address_bindAll _ _ _, fun hunbound => ?_⟩
    rw [hunbound]
    exact ⟨rfl, rfl⟩

/-- The theorem where, around an endpoint that stays, others end, are stopped and cannot be bound,
and where what a call could not bind is left to the next one. -/
theorem uninterrupted_amidOthers :
    let a : Address := .v4 ⟨1⟩
    let b : Address := .v4 ⟨2⟩
    let c : Address := .v6 ⟨1⟩
    let p : EndpointPool := ⟨[(a, 0), (b, 3)], 4⟩
    let outcomes (ended unbound : List Address) : Outcomes := {
      hasEnded := fun x => ended.contains x
      stop := fun _ => .error (.timeout 5000)
      bind := fun x => if unbound.contains x then .error (.plain .addressInUse) else .ok () }
    let calls := [(outcomes [b] [c], [a, b, c]), (outcomes [] [a], [c, a]), (outcomes [c] [c], [a])]
    let first := p.reconcile (outcomes [b] [c]) [a, c]
    let second := first.1.reconcile (outcomes [b] []) [a, c]
    p.endpoint? a = some 0 ∧
    (∀ call ∈ calls, a ∈ call.2 ∧ call.1.hasEnded a = false) ∧
    (∀ x ∈ p.reconciliations calls, x.1.endpoint? a = some 0 ∧
      (∀ d ∈ x.2, d.address ≠ a) ∧ (Report.ofDeeds x.2).about a = ⟨[], [], [], []⟩) ∧
    (∀ x, first.1.serves x = true → (outcomes [b] []).hasEnded x = false) ∧
    second.2.map Deed.address = (Report.ofDeeds first.2).unbound ∧
    (Report.ofDeeds first.2).unbound = [c] := by
  intro a b c p outcomes calls first second
  have hn : p.endpoint? a = some 0 := by decide
  have hcalls : ∀ call ∈ calls, a ∈ call.2 ∧ call.1.hasEnded a = false := by decide
  have hfirst : first.1.addresses = [a] := by decide
  have hended : ∀ x, first.1.serves x = true → (outcomes [b] []).hasEnded x = false := by
    intro x hx
    rw [serves_iff_mem, hfirst, List.mem_singleton] at hx
    rw [hx]
    rfl
  obtain ⟨hrun, htwice⟩ := uninterrupted p
  exact ⟨hn, hcalls, hrun a 0 calls hn hcalls, hended,
    (htwice (outcomes [b] [c]) (outcomes [b] []) [a, c] hended).2.2.2.1, by decide⟩

end EndpointPool

end LeaseKeeper
