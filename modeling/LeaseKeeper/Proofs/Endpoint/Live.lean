/-
The live endpoints of a pool as a table.

* `EndpointPool.IsSound` — the table is in order, and its endpoints have been numbered before;
  `IsSound.prune`, `IsSound.release`, `IsSound.add`, `IsSound.bindAll` say that it stays so;
* `endpoint?_prune`, `endpoint?_release`, `endpoint?_add` — what a pass, or one bind, leaves of
  the endpoint of an address;
* `endpoint?_bindAll` — the same for binding many addresses.
-/
import LeaseKeeper.Endpoint.Pool

namespace LeaseKeeper.EndpointPool

/-- The live endpoints stand in ascending order of their addresses, and their numbers have been
given out before. -/
structure IsSound (p : EndpointPool) : Prop where
  ascending : p.addresses.Pairwise (·.rank < ·.rank)
  opened : ∀ e ∈ p.live, e.2 < p.opened

variable {p : EndpointPool} {a b : Address} {n : Nat} {as target : List Address}
  {hasEnded : Address → Bool} {stop : Address → Except StopFault Unit}
  {bind : Address → Except IoFailure Unit}

/-! ### Looking up -/

theorem lookup_filter (P : Address → Bool) (l : List (Address × Nat)) :
    (l.filter fun e => P e.1).lookup a = if P a then l.lookup a else none := by
  induction l with
  | nil => simp
  | cons e l ih =>
    obtain ⟨b, m⟩ := e
    by_cases hab : a = b
    · subst hab
      by_cases hP : P a
      · simp [hP]
      · simp [hP, ih]
    · have hne : (a == b) = false := beq_false_of_ne hab
      by_cases hP : P b
      · simp [hP, List.lookup_cons, hne, ih]
      · simp [hP, List.lookup_cons, hne, ih]

theorem lookup_insertLive {l : List (Address × Nat)} (h : l.lookup a = none) :
    (insertLive a n l).lookup b = if b = a then some n else l.lookup b := by
  induction l with
  | nil =>
    by_cases hba : b = a
    · simp [insertLive, hba]
    · simp [insertLive, hba, List.lookup_cons, beq_false_of_ne hba]
  | cons e l ih =>
    obtain ⟨c, m⟩ := e
    have hac : a ≠ c := by
      rintro rfl
      simp at h
    rw [List.lookup_cons, beq_false_of_ne hac] at h
    rw [insertLive]
    split
    · by_cases hba : b = a
      · simp [hba]
      · rw [List.lookup_cons, beq_false_of_ne hba, if_neg hba]
    · by_cases hbc : b = c
      · subst hbc
        rw [if_neg (Ne.symm hac), List.lookup_cons_self, List.lookup_cons_self]
      · rw [List.lookup_cons, List.lookup_cons, beq_false_of_ne hbc]
        exact ih h

theorem serves_iff_mem : p.serves a = true ↔ a ∈ p.addresses := by
  rw [serves, endpoint?, addresses, List.lookup_isSome_iff, List.mem_map]
  constructor
  · rintro ⟨e, he, hae⟩
    exact ⟨e, he, (eq_of_beq hae).symm⟩
  · rintro ⟨e, he, rfl⟩
    exact ⟨e, he, beq_self_eq_true e.1⟩

theorem serves_eq_false_iff : p.serves a = false ↔ p.endpoint? a = none := by
  rw [serves, Option.isSome_eq_false_iff, Option.isNone_iff_eq_none]

theorem nodup_of_ascending (h : as.Pairwise (·.rank < ·.rank)) : as.Nodup :=
  h.imp fun hlt heq => Nat.ne_of_lt hlt (congrArg Address.rank heq)

theorem endpoint?_eq_some_iff (h : p.IsSound) : p.endpoint? a = some n ↔ (a, n) ∈ p.live := by
  have hnodup : (p.live.map (·.1)).Nodup := nodup_of_ascending h.ascending
  rw [endpoint?]
  generalize p.live = l at hnodup
  induction l with
  | nil => simp
  | cons e l ih =>
    obtain ⟨b, m⟩ := e
    obtain ⟨hb, hl⟩ := List.nodup_cons.mp hnodup
    by_cases hab : a = b
    · subst hab
      have hnot : (a, n) ∉ l := fun hmem => hb (List.mem_map.mpr ⟨(a, n), hmem, rfl⟩)
      simp [hnot, eq_comm]
    · rw [List.lookup_cons, beq_false_of_ne hab]
      simp [hab, ih hl]

/-! ### One pass -/

theorem endpoint?_prune :
    (p.prune hasEnded).1.endpoint? a = if hasEnded a then none else p.endpoint? a := by
  rw [prune, endpoint?, endpoint?, lookup_filter fun a => !hasEnded a]
  cases hasEnded a <;> rfl

theorem endpoint?_release :
    (p.release stop target).1.endpoint? a = if a ∈ target then p.endpoint? a else none := by
  rw [release, endpoint?, endpoint?, lookup_filter]
  simp

theorem endpoint?_add (h : p.endpoint? a = none) :
    (p.add a).endpoint? b = if b = a then some p.opened else p.endpoint? b :=
  lookup_insertLive h

theorem addresses_filter (P : Address → Bool) :
    (p.live.filter fun e => P e.1).map (·.1) = p.addresses.filter P := by
  rw [addresses, List.filter_map]
  rfl

theorem addresses_prune :
    (p.prune hasEnded).1.addresses = p.addresses.filter fun a => !hasEnded a :=
  addresses_filter fun a => !hasEnded a

theorem addresses_release :
    (p.release stop target).1.addresses = p.addresses.filter fun a => target.contains a :=
  addresses_filter fun a => target.contains a

theorem isSound_empty : empty.IsSound :=
  ⟨List.Pairwise.nil, fun _ he => absurd he List.not_mem_nil⟩

theorem IsSound.prune (h : p.IsSound) : (p.prune hasEnded).1.IsSound where
  ascending := by
    rw [addresses_prune]
    exact h.ascending.filter _
  opened e he := h.opened e (List.mem_filter.mp he).1

theorem IsSound.release (h : p.IsSound) : (p.release stop target).1.IsSound where
  ascending := by
    rw [addresses_release]
    exact h.ascending.filter _
  opened e he := h.opened e (List.mem_filter.mp he).1

theorem mem_insertLive {e : Address × Nat} {l : List (Address × Nat)} :
    e ∈ insertLive a n l ↔ e = (a, n) ∨ e ∈ l := by
  induction l with
  | nil => simp [insertLive]
  | cons b l ih =>
    rw [insertLive]
    split
    · simp
    · rw [List.mem_cons, ih, List.mem_cons]
      exact or_left_comm

theorem insertLive_pairwise {l : List (Address × Nat)} (hnew : ∀ e ∈ l, e.1 ≠ a)
    (h : l.Pairwise fun e f => e.1.rank < f.1.rank) :
    (insertLive a n l).Pairwise fun e f => e.1.rank < f.1.rank := by
  induction l with
  | nil => exact List.pairwise_singleton _ _
  | cons b l ih =>
    obtain ⟨hb, hl⟩ := List.pairwise_cons.mp h
    rw [insertLive]
    split
    · next hlt =>
      refine List.pairwise_cons.mpr ⟨fun e he => ?_, h⟩
      rcases List.mem_cons.mp he with rfl | he
      · exact hlt
      · exact Nat.lt_trans hlt (hb e he)
    · next hge =>
      have htail := ih (fun e he => hnew e (List.mem_cons_of_mem b he)) hl
      refine List.pairwise_cons.mpr ⟨fun e he => ?_, htail⟩
      rcases mem_insertLive.mp he with rfl | he
      · -- Addresses of equal rank are the same.
        refine Nat.lt_of_le_of_ne (Nat.le_of_not_lt hge) fun heq => ?_
        exact hnew b List.mem_cons_self (Address.rank_injective heq)
      · exact hb e he

theorem IsSound.add (h : p.IsSound) (hnew : p.endpoint? a = none) : (p.add a).IsSound where
  ascending := by
    have hne : ∀ e ∈ p.live, e.1 ≠ a := by
      rintro ⟨b, m⟩ he rfl
      rw [(endpoint?_eq_some_iff h).mpr he] at hnew
      cases hnew
    have hlive := h.ascending
    rw [addresses, List.pairwise_map] at hlive ⊢
    exact insertLive_pairwise hne hlive
  opened e he := by
    rcases mem_insertLive.mp he with rfl | he
    · exact Nat.lt_succ_self _
    · exact Nat.lt_succ_of_lt (h.opened e he)

/-! ### Binding -/

theorem bindAll_ok (h : bind a = .ok ()) (as : List Address) (p : EndpointPool) :
    bindAll bind (a :: as) p =
      ((bindAll bind as (p.add a)).1, .bound a p.opened :: (bindAll bind as (p.add a)).2) := by
  rw [bindAll, h]

theorem bindAll_error {e : IoFailure} (h : bind a = .error e) (as : List Address)
    (p : EndpointPool) :
    bindAll bind (a :: as) p =
      ((bindAll bind as p).1, .notBound a e :: (bindAll bind as p).2) := by
  rw [bindAll, h]

/-- A new endpoint changes nothing for addresses that were absent and differ from its own. -/
theorem absent_add (hnodup : (a :: as).Nodup) (hnew : ∀ b ∈ a :: as, p.endpoint? b = none) :
    ∀ b ∈ as, (p.add a).endpoint? b = none := by
  intro b hb
  have hne : b ≠ a := by
    rintro rfl
    exact (List.nodup_cons.mp hnodup).1 hb
  rw [endpoint?_add (hnew a List.mem_cons_self), if_neg hne]
  exact hnew b (List.mem_cons_of_mem a hb)

theorem IsSound.bindAll (h : p.IsSound) (hnodup : as.Nodup)
    (hnew : ∀ a ∈ as, p.endpoint? a = none) : (bindAll bind as p).1.IsSound := by
  induction as generalizing p with
  | nil => exact h
  | cons a as ih =>
    have htail := (List.nodup_cons.mp hnodup).2
    cases hbind : bind a with
    | ok u =>
      rw [bindAll_ok hbind]
      exact ih (h.add (hnew a List.mem_cons_self)) htail (absent_add hnodup hnew)
    | error e =>
      rw [bindAll_error hbind]
      exact ih h htail fun b hb => hnew b (List.mem_cons_of_mem a hb)

/-- Binding gives new endpoints to the addresses that can be bound, and leaves all others as they
are. -/
theorem endpoint?_bindAll (hnodup : as.Nodup) (hnew : ∀ a ∈ as, p.endpoint? a = none)
    (b : Address) :
    (b ∈ as ∧ bind b = .ok () →
      ∃ n, p.opened ≤ n ∧ (bindAll bind as p).1.endpoint? b = some n) ∧
    (¬(b ∈ as ∧ bind b = .ok ()) → (bindAll bind as p).1.endpoint? b = p.endpoint? b) := by
  induction as generalizing p with
  | nil => exact ⟨fun h => absurd h.1 List.not_mem_nil, fun _ => rfl⟩
  | cons a as ih =>
    obtain ⟨ha, htail⟩ := List.nodup_cons.mp hnodup
    cases hbind : bind a with
    | ok u =>
      obtain ⟨hbound, hother⟩ := ih htail (absent_add hnodup hnew)
      have hadd : (p.add a).endpoint? b = if b = a then some p.opened else p.endpoint? b :=
        endpoint?_add (hnew a List.mem_cons_self)
      rw [bindAll_ok hbind]
      by_cases hba : b = a
      · -- The address has just been bound, and is not among those that follow.
        subst hba
        rw [hadd, if_pos rfl] at hother
        refine ⟨fun _ => ⟨p.opened, Nat.le_refl _, hother fun h => ha h.1⟩, fun h => ?_⟩
        exact absurd ⟨List.mem_cons_self, hbind⟩ h
      · rw [hadd, if_neg hba] at hother
        simp only [List.mem_cons, hba, false_or]
        refine ⟨fun h => ?_, hother⟩
        obtain ⟨n, hle, hn⟩ := hbound h
        exact ⟨n, Nat.le_of_succ_le hle, hn⟩
    | error e =>
      have hmem : b ∈ a :: as ∧ bind b = .ok () ↔ b ∈ as ∧ bind b = .ok () := by
        refine ⟨fun h => ⟨List.mem_of_ne_of_mem ?_ h.1, h.2⟩,
          fun h => ⟨List.mem_cons_of_mem a h.1, h.2⟩⟩
        rintro rfl
        rw [hbind] at h
        cases h.2
      rw [bindAll_error hbind, hmem]
      exact ih htail fun c hc => hnew c (List.mem_cons_of_mem a hc)

end LeaseKeeper.EndpointPool
