/-
The lives of endpoints over whole runs of a pool.

A call of a pool is a sequence of deeds, and so is a run of calls.  What holds of every pool that
can come about is shown for one deed, and then for all deeds in a row.

* `EndpointPool.undergo`, `EndpointPool.after` — the pool once a deed, or some deeds, are done;
* `EndpointPool.Admits` — whether a deed can be the next one; `endpoint?_undergo` is what it leaves;
* `after_reconcile`, `admitsAll_reconcile`, and the same for a shutdown — the deeds of a call are
  all that happens to the pool, and each of them can be done when it is;
* `alternating_turns` — the endpoints of an address begin and end in turn;
* `lifetimes` — no endpoint is leaked, doubled or released twice.

Design notes: within a call the endpoints of a pass are stopped, or bound, at the same time, and
nobody else sees the pool before the call is over.  The order of the deeds within a pass is that of
the report.
-/
import LeaseKeeper.Proofs.Endpoint.Reconciliation

namespace LeaseKeeper

/-- The endpoint that an address has once a deed is done to it. -/
def Deed.endpoint? : Deed → Option Nat
  | .bound _ n => some n
  | .lost _ _ | .stopped _ _ _ | .notBound _ _ => none

/-- The beginning or the end of an endpoint. -/
inductive Turn where
  | begins (endpoint : Nat)
  | ends (endpoint : Nat)
  deriving DecidableEq

/-- An endpoint begins when it is bound, and ends when it is stopped, however that turns out, or
given up. -/
def Deed.turn? : Deed → Option Turn
  | .lost _ n | .stopped _ n _ => some (.ends n)
  | .bound _ n => some (.begins n)
  | .notBound _ _ => none

/-- The beginnings and ends of the endpoints of an address. -/
def turns (a : Address) (deeds : List Deed) : List Turn :=
  (deeds.filter fun d => d.address = a).filterMap Deed.turn?

/-- Beginnings and ends in turn, each end being that of the endpoint that began last.  The last
part is the endpoint that has not ended yet. -/
inductive Alternating : List Turn → Option Nat → Prop
  | nil : Alternating [] none
  | begins {ts : List Turn} (n : Nat) :
    Alternating ts none → Alternating (ts ++ [.begins n]) (some n)
  | ends {ts : List Turn} {n : Nat} : Alternating ts (some n) → Alternating (ts ++ [.ends n]) none

theorem Alternating.getLast? {ts : List Turn} {current : Option Nat} (h : Alternating ts current)
    (n : Nat) : current = some n ↔ ts.getLast? = some (.begins n) := by
  cases h with
  | nil => simp
  | begins m h => simp
  | ends h => simp

/-- Every endpoint ends as often as it begins, but for the one that is still there. -/
theorem Alternating.count {ts : List Turn} {current : Option Nat} (h : Alternating ts current)
    (n : Nat) :
    ts.count (.begins n) = ts.count (.ends n) + if current = some n then 1 else 0 := by
  induction h with
  | nil => rfl
  | begins m h ih =>
    rw [List.count_append, List.count_append, ih]
    by_cases hm : m = n <;> simp [hm]
  | @ends ts m h ih =>
    rw [List.count_append, List.count_append, ih]
    by_cases hm : m = n <;> simp [hm]

/-- The numbers of the endpoints that are bound. -/
def boundNumbers (deeds : List Deed) : List Nat :=
  deeds.filterMap fun
    | .bound _ n => some n
    | _ => none

namespace EndpointPool

/-- The pool once a deed is done. -/
def undergo (p : EndpointPool) : Deed → EndpointPool
  | .lost a _ | .stopped a _ _ => { p with live := p.live.filter fun e => e.1 ≠ a }
  | .bound a _ => p.add a
  | .notBound _ _ => p

/-- The pool once some deeds are done, one after another. -/
def after (p : EndpointPool) (deeds : List Deed) : EndpointPool := deeds.foldl undergo p

/-- Whether a deed can be the next one: only what is live is released, and only what is absent is
bound. -/
def Admits (p : EndpointPool) : Deed → Prop
  | .lost a n | .stopped a n _ => p.endpoint? a = some n
  | .bound a n => p.endpoint? a = none ∧ n = p.opened
  | .notBound a _ => p.endpoint? a = none

/-- Whether deeds can be done one after another. -/
def AdmitsAll (p : EndpointPool) : List Deed → Prop
  | [] => True
  | d :: deeds => p.Admits d ∧ (p.undergo d).AdmitsAll deeds

/-- The pool after calls one after another, and all their deeds. -/
def reconcileAll (p : EndpointPool) : List (Outcomes × List Address) → EndpointPool × List Deed
  | [] => (p, [])
  | (o, target) :: calls =>
    let (q, deeds) := p.reconcile o target
    let (r, more) := q.reconcileAll calls
    (r, deeds ++ more)

variable {p : EndpointPool} {o : Outcomes} {a : Address} {n : Nat} {target : List Address}
  {d : Deed} {deeds : List Deed}

/-! ### Deeds -/

theorem after_append (first last : List Deed) :
    p.after (first ++ last) = (p.after first).after last :=
  List.foldl_append

theorem admitsAll_append {first last : List Deed} :
    p.AdmitsAll (first ++ last) ↔ p.AdmitsAll first ∧ (p.after first).AdmitsAll last := by
  induction first generalizing p with
  | nil => exact (and_iff_right trivial).symm
  | cons d first ih =>
    rw [List.cons_append, AdmitsAll, AdmitsAll, ih, and_assoc]
    rfl

/-- A deed decides what its address has, and leaves the others as they are. -/
theorem endpoint?_undergo (h : p.Admits d) :
    (p.undergo d).endpoint? a = if a = d.address then d.endpoint? else p.endpoint? a := by
  have hremove (b : Address) :
      EndpointPool.endpoint? { p with live := p.live.filter fun e => e.1 ≠ b } a =
        if a = b then none else p.endpoint? a := by
    rw [endpoint?, endpoint?, lookup_filter fun c => decide (c ≠ b)]
    by_cases hab : a = b <;> simp [hab]
  cases d with
  | lost b m => exact hremove b
  | stopped b m r => exact hremove b
  | bound b m =>
    obtain ⟨hnew, rfl⟩ := h
    exact endpoint?_add hnew
  | notBound b e =>
    have hnone : p.endpoint? b = none := h
    by_cases hab : a = b
    · rw [hab, undergo, hnone]
      exact (if_pos rfl).symm
    · exact (if_neg hab).symm

theorem admits_undergo {d' : Deed} (h : p.Admits d) (hne : d'.address ≠ d.address)
    (hrelease : d'.isBinding = false) (h' : p.Admits d') : (p.undergo d).Admits d' := by
  have hsame : (p.undergo d).endpoint? d'.address = p.endpoint? d'.address := by
    rw [endpoint?_undergo h, if_neg hne]
  cases d' with
  | lost b m => exact hsame.trans h'
  | stopped b m r => exact hsame.trans h'
  | bound b m => cases hrelease
  | notBound b e => cases hrelease

/-- Endpoints of different addresses can be released in any order. -/
theorem admitsAll_of_releases (hnodup : (deeds.map Deed.address).Nodup)
    (h : ∀ d ∈ deeds, d.isBinding = false ∧ p.Admits d) : p.AdmitsAll deeds := by
  induction deeds generalizing p with
  | nil => trivial
  | cons d deeds ih =>
    obtain ⟨hd, htail⟩ := List.nodup_cons.mp hnodup
    have hadmits := (h d List.mem_cons_self).2
    refine ⟨hadmits, ih htail fun d' hd' => ?_⟩
    obtain ⟨hrelease, hadmits'⟩ := h d' (List.mem_cons_of_mem d hd')
    have hne : d'.address ≠ d.address := fun heq => hd (heq ▸ List.mem_map_of_mem hd')
    exact ⟨hrelease, admits_undergo hadmits hne hrelease hadmits'⟩

theorem after_of_releases (h : ∀ d ∈ deeds, d.isBinding = false) :
    p.after deeds =
      { p with live := p.live.filter fun e => e.1 ∉ deeds.map Deed.address } := by
  induction deeds generalizing p with
  | nil =>
    have hall : (p.live.filter fun e => e.1 ∉ ([] : List Deed).map Deed.address) = p.live :=
      List.filter_eq_self.mpr fun e _ => by simp
    rw [hall]
    rfl
  | cons d deeds ih =>
    have hstep : p.undergo d = { p with live := p.live.filter fun e => e.1 ≠ d.address } := by
      cases d with
      | lost b m => rfl
      | stopped b m r => rfl
      | bound b m => cases h _ List.mem_cons_self
      | notBound b e => cases h _ List.mem_cons_self
    rw [after, List.foldl_cons, ← after, ih fun d' hd' => h d' (List.mem_cons_of_mem d hd'), hstep,
      List.filter_filter]
    refine congrArg (EndpointPool.mk · p.opened) (List.filter_congr fun e _ => ?_)
    rw [List.map_cons, Bool.and_comm, ← Bool.decide_and]
    simp only [List.mem_cons, not_or, ne_eq]

/-! ### Calls -/

theorem after_prune (hasEnded : Address → Bool) :
    p.after (p.prune hasEnded).2 = (p.prune hasEnded).1 := by
  rw [after_of_releases fun d hd => isBinding_prune hd, address_prune, prune]
  refine congrArg (EndpointPool.mk · p.opened) (List.filter_congr fun e he => ?_)
  have hmem : e.1 ∈ p.addresses := List.mem_map_of_mem he
  simp [hmem]

theorem after_release (stop : Address → Except StopFault Unit) (target : List Address) :
    p.after (p.release stop target).2 = (p.release stop target).1 := by
  rw [after_of_releases fun d hd => isBinding_release hd, address_release, release]
  refine congrArg (EndpointPool.mk · p.opened) (List.filter_congr fun e he => ?_)
  have hmem : e.1 ∈ p.addresses := List.mem_map_of_mem he
  simp [surplus, hmem]

theorem after_bindAll (bind : Address → Except IoFailure Unit) (as : List Address)
    (p : EndpointPool) : p.after (bindAll bind as p).2 = (bindAll bind as p).1 := by
  induction as generalizing p with
  | nil => rfl
  | cons a as ih =>
    cases hbind : bind a with
    | ok u =>
      rw [bindAll_ok hbind]
      exact ih (p.add a)
    | error e =>
      rw [bindAll_error hbind]
      exact ih p

theorem admitsAll_prune (h : p.IsSound) (hasEnded : Address → Bool) :
    p.AdmitsAll (p.prune hasEnded).2 := by
  refine admitsAll_of_releases ?_ fun d hd => ⟨isBinding_prune hd, ?_⟩
  · rw [address_prune]
    exact (nodup_of_ascending h.ascending).filter _
  · obtain ⟨e, he, rfl⟩ := List.mem_map.mp hd
    exact (endpoint?_eq_some_iff h).mpr (List.mem_filter.mp he).1

theorem admitsAll_release (h : p.IsSound) (stop : Address → Except StopFault Unit)
    (target : List Address) : p.AdmitsAll (p.release stop target).2 := by
  refine admitsAll_of_releases ?_ fun d hd => ⟨isBinding_release hd, ?_⟩
  · rw [address_release]
    exact (nodup_of_ascending h.ascending).filter _
  · obtain ⟨e, he, rfl⟩ := List.mem_map.mp hd
    exact (endpoint?_eq_some_iff h).mpr (List.mem_filter.mp he).1

theorem admitsAll_bindAll {bind : Address → Except IoFailure Unit} {as : List Address}
    (hnodup : as.Nodup) (hnew : ∀ a ∈ as, p.endpoint? a = none) :
    p.AdmitsAll (bindAll bind as p).2 := by
  induction as generalizing p with
  | nil => trivial
  | cons a as ih =>
    have htail := (List.nodup_cons.mp hnodup).2
    have ha := hnew a List.mem_cons_self
    cases hbind : bind a with
    | ok u =>
      rw [bindAll_ok hbind]
      exact ⟨⟨ha, rfl⟩, ih htail (absent_add hnodup hnew)⟩
    | error e =>
      rw [bindAll_error hbind]
      exact ⟨ha, ih htail fun b hb => hnew b (List.mem_cons_of_mem a hb)⟩

/-- The deeds of a reconciliation are all that happens to the pool. -/
theorem after_reconcile (p : EndpointPool) (o : Outcomes) (target : List Address) :
    p.after (p.reconcile o target).2 = (p.reconcile o target).1 := by
  rw [reconcile_eq, after_append, after_append, after_prune, ← pruned, after_release, ← released,
    after_bindAll]

theorem admitsAll_reconcile (h : p.IsSound) (o : Outcomes) (target : List Address) :
    p.AdmitsAll (p.reconcile o target).2 := by
  rw [reconcile_eq, admitsAll_append, admitsAll_append, after_append, after_prune, ← pruned,
    after_release, ← released]
  exact ⟨⟨admitsAll_prune h _, admitsAll_release (isSound_pruned h) _ _⟩,
    admitsAll_bindAll nodup_toBind absent_toBind⟩

theorem run_reconcileAll (h : p.IsSound) (calls : List (Outcomes × List Address)) :
    (p.reconcileAll calls).1.IsSound ∧
    p.after (p.reconcileAll calls).2 = (p.reconcileAll calls).1 ∧
    p.AdmitsAll (p.reconcileAll calls).2 := by
  induction calls generalizing p with
  | nil => exact ⟨h, rfl, trivial⟩
  | cons call calls ih =>
    obtain ⟨o, target⟩ := call
    obtain ⟨hsound, hafter, hadmits⟩ := ih (h.reconcile o target)
    simp only [reconcileAll, after_append, admitsAll_append, after_reconcile]
    exact ⟨hsound, hafter, admitsAll_reconcile h o target, hadmits⟩

/-! ### Beginnings and ends -/

theorem turns_append (a : Address) (first last : List Deed) :
    turns a (first ++ last) = turns a first ++ turns a last := by
  rw [turns, List.filter_append, List.filterMap_append]
  rfl

theorem turns_singleton_of_ne (h : a ≠ d.address) : turns a [d] = [] := by
  rw [turns, List.filter_cons_of_neg (by simpa using Ne.symm h)]
  rfl

theorem turns_singleton_self : turns d.address [d] = d.turn?.toList := by
  rw [turns, List.filter_cons_of_pos (by simp)]
  cases d <;> rfl

/-- What an admitted deed adds to the turns of an address goes on with what that address has. -/
theorem alternating_undergo (h : p.Admits d) {ts : List Turn}
    (hts : Alternating ts (p.endpoint? a)) :
    Alternating (ts ++ turns a [d]) ((p.undergo d).endpoint? a) := by
  rw [endpoint?_undergo h]
  by_cases hne : a = d.address
  · subst hne
    rw [if_pos rfl, turns_singleton_self]
    cases d with
    | lost b m =>
      have hlive : p.endpoint? b = some m := h
      rw [Deed.address, hlive] at hts
      exact .ends hts
    | stopped b m r =>
      have hlive : p.endpoint? b = some m := h
      rw [Deed.address, hlive] at hts
      exact .ends hts
    | bound b m =>
      rw [Deed.address, h.1] at hts
      exact .begins m hts
    | notBound b e =>
      have hnone : p.endpoint? b = none := h
      rw [Deed.address, hnone] at hts
      rw [Deed.turn?, Option.toList_none, List.append_nil]
      exact hts
  · rw [if_neg hne, turns_singleton_of_ne hne, List.append_nil]
    exact hts

theorem alternating_turns (h : p.AdmitsAll deeds) {ts : List Turn}
    (hts : Alternating ts (p.endpoint? a)) :
    Alternating (ts ++ turns a deeds) ((p.after deeds).endpoint? a) := by
  induction deeds generalizing p ts with
  | nil =>
    rw [turns, List.filter_nil, List.filterMap_nil, List.append_nil]
    exact hts
  | cons d deeds ih =>
    rw [← List.singleton_append, turns_append, ← List.append_assoc]
    exact ih h.2 (alternating_undergo h.1 hts)

/-! ### Numbers -/

/-- The endpoints of a run have different numbers, which have not been given out before. -/
theorem boundNumbers_pairwise (h : p.AdmitsAll deeds) :
    (boundNumbers deeds).Pairwise (· < ·) ∧ ∀ n ∈ boundNumbers deeds, p.opened ≤ n := by
  induction deeds generalizing p with
  | nil => exact ⟨List.Pairwise.nil, fun n hn => absurd hn List.not_mem_nil⟩
  | cons d deeds ih =>
    obtain ⟨hpairwise, hle⟩ := ih h.2
    cases d with
    | lost b m => exact ⟨hpairwise, hle⟩
    | stopped b m r => exact ⟨hpairwise, hle⟩
    | notBound b e => exact ⟨hpairwise, hle⟩
    | bound b m =>
      have hm : m = p.opened := h.1.2
      have hcons : boundNumbers (.bound b m :: deeds) = m :: boundNumbers deeds := rfl
      have hlt : ∀ n ∈ boundNumbers deeds, m < n := by
        intro n hn
        rw [hm]
        exact hle n hn
      rw [hcons]
      refine ⟨List.pairwise_cons.mpr ⟨hlt, hpairwise⟩, fun n hn => ?_⟩
      rcases List.mem_cons.mp hn with rfl | hn
      · exact Nat.le_of_eq hm.symm
      · exact Nat.le_of_lt (hm ▸ hlt n hn)

theorem count_begins_le (a : Address) (n : Nat) (deeds : List Deed) :
    (turns a deeds).count (.begins n) ≤ (boundNumbers deeds).count n := by
  induction deeds with
  | nil => exact Nat.le_refl _
  | cons d deeds ih =>
    have hnumbers : boundNumbers (d :: deeds) = boundNumbers [d] ++ boundNumbers deeds :=
      List.filterMap_append (l := [d])
    have hone : (turns a [d]).count (.begins n) ≤ (boundNumbers [d]).count n := by
      by_cases hne : a = d.address
      · subst hne
        rw [turns_singleton_self]
        cases d with
        | lost b m => exact Nat.le_refl _
        | stopped b m r => exact Nat.le_refl _
        | notBound b e => exact Nat.le_refl _
        | bound b m => by_cases hm : m = n <;> simp [Deed.turn?, boundNumbers, hm]
      · rw [turns_singleton_of_ne hne]
        exact Nat.zero_le _
    rw [← List.singleton_append, turns_append, List.singleton_append, hnumbers, List.count_append,
      List.count_append]
    exact Nat.add_le_add hone ih

theorem begins_mem_turns (h : .bound a n ∈ deeds) : .begins n ∈ turns a deeds := by
  refine List.mem_filterMap.mpr ⟨.bound a n, List.mem_filter.mpr ⟨h, ?_⟩, rfl⟩
  simp [Deed.address]

/-- Once an address has no endpoint any more, each one that it had has ended exactly once. -/
theorem count_ends (h : empty.AdmitsAll deeds) (hbound : .bound a n ∈ deeds)
    (hover : (empty.after deeds).endpoint? a = none) : (turns a deeds).count (.ends n) = 1 := by
  have halternating := alternating_turns (a := a) h .nil
  rw [List.nil_append, hover] at halternating
  have hcount := halternating.count n
  have hnodup : (boundNumbers deeds).Nodup := (boundNumbers_pairwise h).1.imp Nat.ne_of_lt
  have hle := Nat.le_trans (count_begins_le a n deeds) (List.nodup_iff_count.mp hnodup n)
  have hpos := List.count_pos_iff.mpr (begins_mem_turns hbound)
  simp only [reduceCtorEq, if_false] at hcount
  omega

/-! ### Runs -/

theorem after_shutdown (p : EndpointPool) (o : Outcomes) :
    p.after (p.shutdown o).2 = (p.shutdown o).1 :=
  after_release o.stop []

theorem admitsAll_shutdown (h : p.IsSound) (o : Outcomes) : p.AdmitsAll (p.shutdown o).2 :=
  admitsAll_release h o.stop []

theorem live_shutdown (p : EndpointPool) (o : Outcomes) : (p.shutdown o).1.live = [] := by
  rw [shutdown, release]
  exact List.filter_eq_nil_iff.mpr fun e _ => by simp

/-- The state of the endpoint of an address between deeds. -/
def state (p : EndpointPool) (a : Address) : EndpointState := if p.serves a then .live else .absent

/-- The path of a deed leads from the state that its address is in to the one that it is in then. -/
theorem path_undergo (h : p.Admits d) :
    d.path.head? = some (p.state d.address) ∧
      d.path.getLast? = some ((p.undergo d).state d.address) := by
  rw [state, state, serves, serves, endpoint?_undergo h, if_pos rfl]
  cases d with
  | lost b m =>
    have hlive : p.endpoint? b = some m := h
    rw [Deed.address, hlive]
    exact ⟨rfl, rfl⟩
  | stopped b m r =>
    have hlive : p.endpoint? b = some m := h
    rw [Deed.address, hlive]
    exact ⟨rfl, rfl⟩
  | bound b m =>
    rw [Deed.address, h.1]
    exact ⟨rfl, rfl⟩
  | notBound b e =>
    have hnone : p.endpoint? b = none := h
    rw [Deed.address, hnone]
    exact ⟨rfl, rfl⟩

theorem serves_of_isBinding (h : p.Admits d) (hbinding : d.isBinding = true) :
    p.serves d.address = false := by
  rw [serves_eq_false_iff]
  cases d with
  | lost b m => cases hbinding
  | stopped b m r => cases hbinding
  | bound b m => exact h.1
  | notBound b e => exact h

/-- A pool that began empty is accounted for by the deeds that have been done. -/
structure AccountedFor (p : EndpointPool) (deeds : List Deed) : Prop where
  /-- The deeds are all that has happened to the pool. -/
  pool : empty.after deeds = p
  /-- At every moment, beginnings and ends of the endpoints of an address have come in turn, and it
  is live exactly if the last of them is a beginning. -/
  turns : ∀ before rest, deeds = before ++ rest → ∀ a,
    Alternating (turns a before) ((empty.after before).endpoint? a) ∧
    ((empty.after before).serves a = true ↔
      ∃ n, (LeaseKeeper.turns a before).getLast? = some (.begins n))
  /-- No address is bound, or tried to be bound, while it is live. -/
  binding : ∀ before d rest, deeds = before ++ d :: rest → d.isBinding = true →
    (empty.after before).serves d.address = false
  /-- The states of an address follow one another without a gap. -/
  paths : ∀ before d rest, deeds = before ++ d :: rest →
    d.path.head? = some ((empty.after before).state d.address) ∧
    d.path.getLast? = some ((empty.after (before ++ [d])).state d.address)
  /-- No two endpoints are the same. -/
  numbers : (boundNumbers deeds).Nodup

theorem accountedFor_of_admitsAll (h : empty.AdmitsAll deeds) :
    AccountedFor (empty.after deeds) deeds where
  pool := rfl
  turns before rest hsplit a := by
    rw [hsplit, admitsAll_append] at h
    have halternating := alternating_turns (a := a) h.1 .nil
    rw [List.nil_append] at halternating
    refine ⟨halternating, ?_⟩
    rw [serves, Option.isSome_iff_exists]
    exact exists_congr fun n => halternating.getLast? n
  binding before d rest hsplit hbinding := by
    rw [hsplit, admitsAll_append] at h
    exact serves_of_isBinding h.2.1 hbinding
  paths before d rest hsplit := by
    rw [hsplit, admitsAll_append] at h
    rw [after_append]
    exact path_undergo h.2.1
  numbers := (boundNumbers_pairwise h).1.imp Nat.ne_of_lt

/-- **No endpoint is leaked, doubled or released twice.**  Take any calls of a pool that begins
empty, with any targets, in each of which any endpoints may have ended by themselves and any stop
or bind may fail.  After each call, and at each moment within a call, the beginnings and ends of the
endpoints of every address come in turn and say what is live.  A shutdown after the last call leaves
no endpoint, and then every endpoint that was ever bound has ended exactly once. -/
theorem lifetimes (calls : List (Outcomes × List Address)) (closing : Outcomes) :
    let run := empty.reconcileAll calls
    let last := run.1.shutdown closing
    AccountedFor run.1 run.2 ∧ AccountedFor last.1 (run.2 ++ last.2) ∧ last.1.live = [] ∧
    ∀ a n, .bound a n ∈ run.2 → (turns a (run.2 ++ last.2)).count (.ends n) = 1 := by
  intro run last
  obtain ⟨hsound, hafter, hadmits⟩ := run_reconcileAll isSound_empty calls
  have hall : empty.AdmitsAll (run.2 ++ last.2) := by
    rw [admitsAll_append, hafter]
    exact ⟨hadmits, admitsAll_shutdown hsound closing⟩
  have hlast : empty.after (run.2 ++ last.2) = last.1 := by
    rw [after_append, hafter, after_shutdown]
  have hempty : last.1.live = [] := live_shutdown run.1 closing
  have hrun := accountedFor_of_admitsAll hadmits
  have hclosed := accountedFor_of_admitsAll hall
  rw [hafter] at hrun
  rw [hlast] at hclosed
  refine ⟨hrun, hclosed, hempty, fun a n hbound => ?_⟩
  refine count_ends hall (List.mem_append_left _ hbound) ?_
  rw [hlast, endpoint?, hempty]
  rfl

end EndpointPool

end LeaseKeeper
