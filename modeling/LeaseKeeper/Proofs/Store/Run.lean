/-
A store in operation.

A run is a list of actions, each at its own clock; each replacement meets what its index says.
What comes of the actions is decided by the storage alone: `outcomes` lists it, and the rest is
said in terms of that list.

* `StoreRun.perform`, `StoreRun.performAll` — the actions;
* `installed`, `registered`, `eventsOf` — the sets that have been installed, the observers that
  have been registered, and the events, in order;
* `Faithful` — memory, disk, observers and gauge agree about what has happened;
* `faithful_perform`, `faithful_performAll` — an action, and so a run, keeps it;
* `observedBy_eventsOf`, `persisted_of_observed` — what one observer sees, and when.
-/
import LeaseKeeper.Proofs.Store.Atomic
import LeaseKeeper.Store.LeaseStore

namespace LeaseKeeper

inductive StoreAction (ι : Type) where
  | register (o : Observer)
  | replace (how : ι) (s : LeaseSet)

/-- An open store, with its world, the value of the gauge, and what has happened so far. -/
structure StoreRun (σ : Type) where
  store : LeaseStore
  world : σ
  gauge : Nat
  events : List Event

inductive Happening where
  | registered (o : Observer)
  | installed (s : LeaseSet)
  | refused (e : StoreError)

variable {σ ι V : Type} {storage : ι → Storage σ}

namespace StoreRun

/-- Does an action at a clock that shows `now`. -/
def perform (storage : ι → Storage σ) (r : StoreRun σ) : Instant × StoreAction ι → StoreRun σ
  | (now, .register o) =>
    let (store, events) := r.store.register o
    { r with store, gauge := gaugeAfter now r.gauge events, events := r.events ++ events }
  | (now, .replace how s) =>
    let outcome := r.store.replace (storage how) s r.world
    { store := outcome.store
      world := outcome.world
      gauge := gaugeAfter now r.gauge outcome.events
      events := r.events ++ outcome.events }

def performAll (storage : ι → Storage σ) (r : StoreRun σ)
    (actions : List (Instant × StoreAction ι)) : StoreRun σ :=
  actions.foldl (perform storage) r

end StoreRun

/-! ### What comes of actions -/

/-- What comes of an action, as the storage decides it, and the world after it. -/
def attempt (storage : ι → Storage σ) (w : σ) : StoreAction ι → Happening × σ
  | .register o => (.registered o, w)
  | .replace how s =>
    match (storage how).persist s w with
    | (.ok (), w) => (.installed s, w)
    | (.error e, w) => (.refused e, w)

/-- What comes of actions one after another, with the clock of each. -/
def outcomes (storage : ι → Storage σ) : σ → List (Instant × StoreAction ι) →
    List (Instant × Happening)
  | _, [] => []
  | w, (now, action) :: actions =>
    (now, (attempt storage w action).1) :: outcomes storage (attempt storage w action).2 actions

def installed (hs : List (Instant × Happening)) : List LeaseSet :=
  hs.filterMap fun
    | (_, .installed s) => some s
    | _ => none

def registered (hs : List (Instant × Happening)) : List Observer :=
  hs.filterMap fun
    | (_, .registered o) => some o
    | _ => none

/-- The last set that has been installed, or the one that was there before. -/
def currentAfter (s : LeaseSet) (hs : List (Instant × Happening)) : LeaseSet :=
  (installed hs).getLast?.getD s

/-- The events of a store with the current set `s` and the observers `os`. -/
def eventsOf (s : LeaseSet) (os : List Observer) : List (Instant × Happening) → List Event
  | [] => []
  | (_, .registered o) :: hs => .observed o s :: eventsOf s (os ++ [o]) hs
  | (_, .installed t) :: hs =>
    .persisted t :: .published t :: (os.map fun o => .observed o t) ++ eventsOf t os hs
  | (_, .refused e) :: hs => .persistFailed e :: eventsOf s os hs

def observedBy (o : Observer) (events : List Event) : List LeaseSet :=
  events.filterMap fun
    | .observed o' s => if o' = o then some s else none
    | _ => none

/-- Whether the gauge, once registered, is told. -/
def Happening.TellsGauge : Happening → Prop
  | .registered o => o = .gauge
  | .installed _ => True
  | .refused _ => False

/-- Memory, disk, observers and gauge agree about what has happened to a store that was opened
with the set `s` in the world `w` when the gauge was at `value`. -/
structure Faithful (durable : σ → V) (image : LeaseSet → V) (s : LeaseSet) (w : σ) (value : Nat)
    (hs : List (Instant × Happening)) (r : StoreRun σ) : Prop where
  current : r.store.current = currentAfter s hs
  observers : r.store.observers = registered hs
  disk : durable r.world = ((installed hs).getLast?.map image).getD (durable w)
  events : r.events = eventsOf s [] hs
  gauge_unset : .gauge ∉ registered hs → r.gauge = value
  /-- The gauge counts at the clock of the last replacement or of its own registration. -/
  gauge : .gauge ∈ registered hs → ∃ before now h after, hs = before ++ (now, h) :: after ∧
    h.TellsGauge ∧ (∀ x ∈ after, ¬x.2.TellsGauge) ∧
    r.gauge = LeaseSet.countInForce r.store.current now

section

variable {s t : LeaseSet} {os : List Observer} {o : Observer} {hs hs' : List (Instant × Happening)}
  {now : Instant} {value : Nat} {w w' : σ} {r : StoreRun σ} {action : StoreAction ι} {how : ι}
  {e : StoreError}

/-! ### One happening more -/

theorem installed_append : installed (hs ++ hs') = installed hs ++ installed hs' :=
  List.filterMap_append

theorem registered_append : registered (hs ++ hs') = registered hs ++ registered hs' :=
  List.filterMap_append

theorem installed_append_of_eq_nil (h : installed hs' = []) :
    installed (hs ++ hs') = installed hs := by
  rw [installed_append, h, List.append_nil]

theorem registered_append_of_eq_nil (h : registered hs' = []) :
    registered (hs ++ hs') = registered hs := by
  rw [registered_append, h, List.append_nil]

theorem currentAfter_append :
    currentAfter s (hs ++ hs') = currentAfter (currentAfter s hs) hs' := by
  rw [currentAfter, currentAfter, currentAfter, installed_append, List.getLast?_append]
  cases (installed hs').getLast? <;> rfl

theorem eventsOf_append : eventsOf s os (hs ++ hs') =
    eventsOf s os hs ++ eventsOf (currentAfter s hs) (os ++ registered hs) hs' := by
  -- Current set and observers go on from what the first part has led to.
  induction hs generalizing s os with
  | nil =>
    have hos : os ++ registered [] = os := List.append_nil os
    rw [hos]
    rfl
  | cons first hs ih =>
    obtain ⟨now, h⟩ := first
    cases h with
    | registered o =>
      have hos : os ++ registered ((now, .registered o) :: hs) = os ++ [o] ++ registered hs := by
        rw [List.append_assoc]
        rfl
      rw [List.cons_append, eventsOf, eventsOf, ih, hos]
      rfl
    | installed t =>
      have hcurrent : currentAfter s ([(now, .installed t)] ++ hs) = currentAfter t hs :=
        currentAfter_append
      rw [List.singleton_append] at hcurrent
      rw [List.cons_append, eventsOf, eventsOf, ih, hcurrent, List.append_assoc]
      rfl
    | refused e =>
      rw [List.cons_append, eventsOf, eventsOf, ih]
      rfl

theorem gaugeAfter_observed (now : Instant) (value : Nat) (os : List Observer) (s : LeaseSet) :
    gaugeAfter now value (os.map fun o => .observed o s) =
      if .gauge ∈ os then LeaseSet.countInForce s now else value := by
  induction os generalizing value with
  | nil => rfl
  | cons o os ih =>
    -- The gauge may be registered more than once, and then it counts the same each time.
    have hstep : gaugeAfter now value ((o :: os).map fun o => .observed o s) =
        gaugeAfter now (if o = .gauge then LeaseSet.countInForce s now else value)
          (os.map fun o => .observed o s) := by
      cases o <;> rfl
    rw [hstep, ih]
    by_cases ho : o = .gauge
    · subst ho
      rw [if_pos rfl, if_pos List.mem_cons_self, ite_self]
    · have hmem : .gauge ∈ o :: os ↔ .gauge ∈ os := by
        rw [List.mem_cons, or_iff_right (Ne.symm ho)]
      rw [if_neg ho]
      simp only [hmem]

/-! ### One action more -/

theorem perform_installed (h : (storage how).persist t r.world = (.ok (), w')) :
    StoreRun.perform storage r (now, .replace how t) =
      { store := { r.store with current := t }
        world := w'
        gauge := if .gauge ∈ r.store.observers then LeaseSet.countInForce t now else r.gauge
        events := r.events ++
          .persisted t :: .published t :: r.store.observers.map fun o => .observed o t } := by
  rw [← gaugeAfter_observed]
  simp only [StoreRun.perform, LeaseStore.replace, h]
  rfl

/-- A replacement that is refused leaves everything but the world as it was. -/
theorem perform_refused (h : (storage how).persist t r.world = (.error e, w')) :
    StoreRun.perform storage r (now, .replace how t) =
      { r with world := w', events := r.events ++ [.persistFailed e] } := by
  simp only [StoreRun.perform, LeaseStore.replace, h]
  rfl

variable {sound : σ → Prop} {durable : σ → V} {image : LeaseSet → V}

/-- The gauge keeps its count through what it is not told. -/
theorem Faithful.gauge_append {r' : StoreRun σ} (h : Faithful durable image s w value hs r)
    {x : Instant × Happening} (hquiet : ¬x.2.TellsGauge) (hmem : .gauge ∈ registered hs)
    (hgauge : r'.gauge = r.gauge) (hcurrent : r'.store.current = r.store.current) :
    ∃ before now h after, hs ++ [x] = before ++ (now, h) :: after ∧ h.TellsGauge ∧
      (∀ x ∈ after, ¬x.2.TellsGauge) ∧
      r'.gauge = LeaseSet.countInForce r'.store.current now := by
  obtain ⟨before, now, last, after, rfl, htells, hafter, hcount⟩ := h.gauge hmem
  refine ⟨before, now, last, after ++ [x], by simp, htells, ?_, ?_⟩
  · intro y hy
    rcases List.mem_append.mp hy with hy | hy
    · exact hafter y hy
    · rw [List.mem_singleton.mp hy]
      exact hquiet
  · rw [hgauge, hcurrent, hcount]

theorem faithful_register (h : Faithful durable image s w value hs r) :
    Faithful durable image s w value (hs ++ [(now, .registered o)])
      (StoreRun.perform storage r (now, .register o)) where
  current := by
    rw [currentAfter_append]
    exact h.current
  observers := by
    rw [registered_append, ← h.observers]
    rfl
  disk := by
    have hinstalled : installed (hs ++ [(now, .registered o)]) = installed hs :=
      installed_append_of_eq_nil rfl
    rw [hinstalled]
    exact h.disk
  events := by
    rw [eventsOf_append, ← h.events, ← h.current]
    rfl
  gauge_unset hmem := by
    rw [registered_append, List.mem_append, not_or] at hmem
    have ho : o ≠ .gauge := by
      rintro rfl
      exact hmem.2 List.mem_cons_self
    cases o with
    | gauge => exact absurd rfl ho
    | watcher index => exact h.gauge_unset hmem.1
  gauge hmem := by
    -- Either the gauge counts now, or it has been there before and goes without notice.
    cases o with
    | gauge => exact ⟨hs, now, _, [], rfl, rfl, fun _ hx => absurd hx List.not_mem_nil, rfl⟩
    | watcher index =>
      have hbefore : .gauge ∈ registered hs := by
        rw [registered_append, List.mem_append] at hmem
        refine hmem.resolve_right fun hlast => ?_
        cases List.mem_singleton.mp hlast
      exact h.gauge_append (fun hquiet => by cases hquiet) hbefore rfl rfl

theorem faithful_installed (hatomic : Atomic storage sound durable image)
    (h : Faithful durable image s w value hs r) (hsound : sound r.world)
    (hpersist : (storage how).persist t r.world = (.ok (), w')) :
    Faithful durable image s w value (hs ++ [(now, .installed t)])
      (StoreRun.perform storage r (now, .replace how t)) := by
  have hinstalled : installed (hs ++ [(now, .installed t)]) = installed hs ++ [t] :=
    installed_append
  have hregistered : registered (hs ++ [(now, .installed t)]) = registered hs :=
    registered_append_of_eq_nil rfl
  rw [perform_installed hpersist]
  refine ⟨?_, ?_, ?_, ?_, ?_, ?_⟩
  · rw [currentAfter, hinstalled, List.getLast?_concat]
    rfl
  · rw [hregistered]
    exact h.observers
  · rw [hinstalled, List.getLast?_concat]
    exact (hatomic.persisted hsound hpersist).2
  · rw [eventsOf_append, ← h.events, ← h.current, List.nil_append, ← h.observers, eventsOf,
      eventsOf, List.append_nil]
  · intro hmem
    rw [hregistered] at hmem
    have hnot : .gauge ∉ r.store.observers := h.observers ▸ hmem
    exact (if_neg hnot).trans (h.gauge_unset hmem)
  · intro hmem
    rw [hregistered] at hmem
    have hgauge : .gauge ∈ r.store.observers := h.observers ▸ hmem
    exact ⟨hs, now, _, [], rfl, trivial, fun _ hx => absurd hx List.not_mem_nil, if_pos hgauge⟩

theorem faithful_refused (hatomic : Atomic storage sound durable image)
    (h : Faithful durable image s w value hs r) (hsound : sound r.world)
    (hpersist : (storage how).persist t r.world = (.error e, w')) :
    Faithful durable image s w value (hs ++ [(now, .refused e)])
      (StoreRun.perform storage r (now, .replace how t)) := by
  have hinstalled : installed (hs ++ [(now, .refused e)]) = installed hs :=
    installed_append_of_eq_nil rfl
  have hregistered : registered (hs ++ [(now, .refused e)]) = registered hs :=
    registered_append_of_eq_nil rfl
  rw [perform_refused hpersist]
  refine ⟨?_, ?_, ?_, ?_, ?_, ?_⟩
  · rw [currentAfter_append]
    exact h.current
  · rw [hregistered]
    exact h.observers
  · rw [hinstalled]
    exact (hatomic.failed hsound hpersist).2.trans h.disk
  · rw [eventsOf_append, ← h.events]
    rfl
  · intro hmem
    exact h.gauge_unset (hregistered ▸ hmem)
  · intro hmem
    exact h.gauge_append (fun hquiet => hquiet) (hregistered ▸ hmem) rfl rfl

theorem faithful_perform (hatomic : Atomic storage sound durable image)
    (h : Faithful durable image s w value hs r) (hsound : sound r.world) :
    Faithful durable image s w value (hs ++ [(now, (attempt storage r.world action).1)])
      (StoreRun.perform storage r (now, action)) ∧
    (StoreRun.perform storage r (now, action)).world = (attempt storage r.world action).2 ∧
    sound (attempt storage r.world action).2 := by
  cases action with
  | register o => exact ⟨faithful_register h, rfl, hsound⟩
  | replace how t =>
    cases hpersist : (storage how).persist t r.world with
    | mk result w' =>
      cases result with
      | ok =>
        have hattempt : attempt storage r.world (.replace how t) = (.installed t, w') := by
          simp only [attempt, hpersist]
        rw [hattempt]
        refine ⟨faithful_installed hatomic h hsound hpersist, ?_, ?_⟩
        · rw [perform_installed hpersist]
        · exact (hatomic.persisted hsound hpersist).1
      | error e =>
        have hattempt : attempt storage r.world (.replace how t) = (.refused e, w') := by
          simp only [attempt, hpersist]
        rw [hattempt]
        refine ⟨faithful_refused hatomic h hsound hpersist, ?_, ?_⟩
        · rw [perform_refused hpersist]
        · exact (hatomic.failed hsound hpersist).1

theorem faithful_performAll (hatomic : Atomic storage sound durable image)
    (h : Faithful durable image s w value hs r) (hsound : sound r.world)
    (actions : List (Instant × StoreAction ι)) :
    Faithful durable image s w value (hs ++ outcomes storage r.world actions)
      (StoreRun.performAll storage r actions) ∧
    sound (StoreRun.performAll storage r actions).world := by
  induction actions generalizing hs r with
  | nil =>
    rw [outcomes, List.append_nil]
    exact ⟨h, hsound⟩
  | cons first actions ih =>
    -- The storage decides what comes of the actions that are left, so the world must be the one
    -- that it has left.
    obtain ⟨now, action⟩ := first
    obtain ⟨hnext, hworld, hnextSound⟩ := faithful_perform hatomic h hsound
    have hrest := ih hnext (hworld ▸ hnextSound)
    rw [hworld, List.append_assoc] at hrest
    exact hrest

/-! ### What an observer sees -/

theorem observedBy_append {es es' : List Event} :
    observedBy o (es ++ es') = observedBy o es ++ observedBy o es' :=
  List.filterMap_append

theorem observedBy_map (o : Observer) (os : List Observer) (t : LeaseSet) :
    observedBy o (os.map fun o => .observed o t) = List.replicate (os.count o) t := by
  induction os with
  | nil => rfl
  | cons first os ih =>
    have hcons : observedBy o ((first :: os).map fun o => .observed o t) =
        (if first = o then [t] else []) ++ observedBy o (os.map fun o => .observed o t) := by
      by_cases hfirst : first = o
      · rw [if_pos hfirst]
        exact List.filterMap_cons_some (if_pos hfirst)
      · rw [if_neg hfirst]
        exact List.filterMap_cons_none (if_neg hfirst)
    rw [hcons, ih]
    by_cases hfirst : first = o
    · rw [if_pos hfirst, hfirst, List.count_cons_self, List.replicate_succ]
      rfl
    · rw [if_neg hfirst, List.count_cons_of_ne hfirst, List.nil_append]

/-- An observer sees each set that is installed, once for each of its registrations. -/
theorem observedBy_eventsOf (h : o ∉ registered hs) : observedBy o (eventsOf s os hs) =
    (installed hs).flatMap fun t => List.replicate (os.count o) t := by
  induction hs generalizing s os with
  | nil => rfl
  | cons first hs ih =>
    obtain ⟨now, happening⟩ := first
    cases happening with
    | registered o' =>
      have hmem : o ∉ o' :: registered hs := h
      rw [List.mem_cons, not_or] at hmem
      have hseen : observedBy o (eventsOf s os ((now, .registered o') :: hs)) =
          observedBy o (eventsOf s (os ++ [o']) hs) :=
        List.filterMap_cons_none (if_neg (Ne.symm hmem.1))
      rw [hseen, ih hmem.2, List.count_append, List.count_cons_of_ne (Ne.symm hmem.1),
        List.count_nil, Nat.add_zero]
      rfl
    | installed t =>
      have hseen : observedBy o (eventsOf s os ((now, .installed t) :: hs)) =
          observedBy o ((os.map fun o => .observed o t) ++ eventsOf t os hs) := rfl
      rw [hseen, observedBy_append, observedBy_map, ih h]
      rfl
    | refused e => exact ih h

/-- An observer that is registered once sees the set that is current then, and each one that is
installed from then on. -/
theorem observedBy_of_registered {before after : List (Instant × Happening)}
    (hhs : hs = before ++ (now, .registered o) :: after) (hbefore : o ∉ registered before)
    (hafter : o ∉ registered after) :
    observedBy o (eventsOf s [] hs) = currentAfter s before :: installed after := by
  have hfirst : observedBy o (eventsOf s [] before) = [] := by
    rw [observedBy_eventsOf hbefore, List.count_nil]
    exact List.flatMap_eq_nil_iff.mpr fun _ _ => rfl
  have hcount : (registered before ++ [o]).count o = 1 := by
    rw [List.count_append, List.count_eq_zero.mpr hbefore, List.count_singleton_self]
  have hrest : observedBy o (eventsOf (currentAfter s before) (registered before ++ [o]) after) =
      installed after := by
    rw [observedBy_eventsOf hafter, hcount]
    exact List.flatMap_singleton' _
  rw [hhs, eventsOf_append, observedBy_append, hfirst, List.nil_append, List.nil_append, eventsOf,
    ← hrest]
  exact List.filterMap_cons_some (if_pos rfl)

/-- What an observer sees has been persisted and then published, unless it was there from the
start. -/
theorem persisted_of_observed {before after : List Event}
    (h : eventsOf s os hs = before ++ .observed o t :: after) :
    t = s ∨ ∃ front back, before = front ++ .persisted t :: .published t :: back := by
  induction hs generalizing s os before with
  | nil => simp [eventsOf] at h
  | cons first hs ih =>
    obtain ⟨now, happening⟩ := first
    cases happening with
    | registered o' =>
      cases before with
      | nil =>
        cases (List.cons.inj h).1
        exact .inl rfl
      | cons event before =>
        refine (ih (List.cons.inj h).2).imp_right fun ⟨front, back, hbefore⟩ => ?_
        exact ⟨event :: front, back, by rw [hbefore, List.cons_append]⟩
    | installed u =>
      -- The set is persisted and published first, so these two events come before any observer.
      match before, h with
      | [], h => cases (List.cons.inj h).1
      | [event], h => cases (List.cons.inj (List.cons.inj h).2).1
      | persisted :: published :: before, h =>
        obtain ⟨rfl, hrest⟩ := List.cons.inj h
        obtain ⟨rfl, hlater⟩ := List.cons.inj hrest
        have hearlier : t = u ∨ ∃ front back,
            before = front ++ .persisted t :: .published t :: back := by
          rcases List.append_eq_append_iff.mp hlater with ⟨mid, rfl, hmid⟩ | ⟨mid, hmap, hmid⟩
          · -- the observer sees it after the replacement
            refine (ih hmid).imp_right fun ⟨front, back, hfront⟩ => ?_
            exact ⟨_ ++ front, back, by rw [hfront, List.append_assoc]⟩
          · cases mid with
            | nil =>
              have hnow : eventsOf u os hs = [] ++ .observed o t :: after := hmid.symm
              rcases ih hnow with heq | ⟨front, back, hfront⟩
              · exact .inl heq
              · simp at hfront
            | cons event mid =>
              -- the observer sees it in the course of the replacement
              have hevent : event ∈ os.map fun o => .observed o u := by
                rw [hmap]
                exact List.mem_append_right _ List.mem_cons_self
              rw [← (List.cons.inj hmid).1] at hevent
              obtain ⟨o', -, ho'⟩ := List.mem_map.mp hevent
              cases ho'
              exact .inl rfl
        refine .inr ?_
        rcases hearlier with rfl | ⟨front, back, rfl⟩
        · exact ⟨[], before, rfl⟩
        · exact ⟨.persisted u :: .published u :: front, back, rfl⟩
    | refused e =>
      cases before with
      | nil => cases (List.cons.inj h).1
      | cons event before =>
        refine (ih (List.cons.inj h).2).imp_right fun ⟨front, back, hbefore⟩ => ?_
        exact ⟨event :: front, back, by rw [hbefore, List.cons_append]⟩

end

end LeaseKeeper
