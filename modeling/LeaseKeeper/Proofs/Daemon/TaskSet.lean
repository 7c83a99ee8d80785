/-
What is taken over from the tasks of a set.

* `TaskSet.endAt?_eq`, `TaskSet.joinAt?_eq` — a task that ends, and one that is joined;
* `TaskSet.failed_record`, `TaskSet.cancelled_joinEnded` and the like — a set once one task, or all
  that have ended, are joined;
* `TaskSet.joinAll_left` — two rounds of joining are enough: no task that is left can end.
-/
import LeaseKeeper.Daemon.TaskSet

namespace LeaseKeeper

namespace TaskSet

variable {τ : Type}

/-! ### Taking over how tasks have ended -/

section Record

variable (s : TaskSet τ) (e : TaskEnd)

theorem running_record : (s.record e).running = s.running := by cases e <;> rfl

theorem ended_record : (s.record e).ended = s.ended := by cases e <;> rfl

theorem failed_record : (s.record e).failed = true ↔ s.failed = true ∨ e ≠ .clean := by
  cases e <;> simp [record]

theorem cancelled_record : (s.record e).cancelled = true ↔ s.cancelled = true ∨ e ≠ .clean := by
  cases e <;> simp [record]

theorem endAt?_eq {ending : τ → Bool → Option TaskEnd} {i : Nat} {t : τ}
    (ht : s.running[i]? = some t) (he : ending t s.cancelled = some e) :
    s.endAt? ending i =
      some { s with running := s.running.eraseIdx i, ended := s.ended ++ [e] } := by
  simp [endAt?, ht, he]

theorem joinAt?_eq {i : Nat} (he : s.ended[i]? = some e) :
    s.joinAt? i = some ({ s with ended := s.ended.eraseIdx i }.record e) := by
  simp [joinAt?, he]

end Record

theorem cancelled_foldl_record (es : List TaskEnd) (s : TaskSet τ) :
    (es.foldl record s).cancelled = true ↔ s.cancelled = true ∨ ∃ e ∈ es, e ≠ .clean := by
  induction es generalizing s with
  | nil => simp
  | cons e es ih =>
    rw [List.foldl_cons, ih, cancelled_record]
    simp [or_assoc]

theorem running_foldl_record (es : List TaskEnd) (s : TaskSet τ) :
    (es.foldl record s).running = s.running := by
  induction es generalizing s with
  | nil => rfl
  | cons e es ih => rw [List.foldl_cons, ih, running_record]

theorem ended_foldl_record (es : List TaskEnd) (s : TaskSet τ) :
    (es.foldl record s).ended = s.ended := by
  induction es generalizing s with
  | nil => rfl
  | cons e es ih => rw [List.foldl_cons, ih, ended_record]

theorem cancelled_joinEnded (s : TaskSet τ) :
    s.joinEnded.cancelled = true ↔ s.cancelled = true ∨ ∃ e ∈ s.ended, e ≠ .clean :=
  cancelled_foldl_record s.ended _

theorem size_joinEnded (s : TaskSet τ) : s.joinEnded.size = s.running.length := by
  rw [size, joinEnded, running_foldl_record, ended_foldl_record]
  rfl

theorem ended_joinEnded (s : TaskSet τ) : s.joinEnded.ended = [] :=
  ended_foldl_record s.ended _

theorem running_joinEnded (s : TaskSet τ) : s.joinEnded.running = s.running :=
  running_foldl_record s.ended _

/-- Once all are joined, a task that is left neither has ended nor can end. -/
theorem joinAll_left (ending : τ → Bool → Option TaskEnd) (s : TaskSet τ) :
    (s.joinAll ending).ended = [] ∧
      ∀ t ∈ (s.joinAll ending).running, ending t (s.joinAll ending).cancelled = none := by
  obtain ⟨first, hfirst⟩ : ∃ first, first = (s.settle ending).joinEnded := ⟨_, rfl⟩
  have hjoinAll : s.joinAll ending = (first.settle ending).joinEnded := by
    rw [hfirst]
    rfl
  have hleft {q : TaskSet τ} {t : τ} (ht : t ∈ (q.settle ending).joinEnded.running) :
      t ∈ q.running ∧ ending t q.cancelled = none := by
    rw [running_joinEnded] at ht
    obtain ⟨hmem, hnone⟩ := List.mem_filter.mp ht
    exact ⟨hmem, Option.isNone_iff_eq_none.mp hnone⟩
  have hended : first.ended = [] := hfirst ▸ ended_joinEnded _
  rw [hjoinAll]
  refine ⟨ended_joinEnded _, fun t ht => ?_⟩
  by_cases hcancelled : first.cancelled = true
  · have hstays : (first.settle ending).joinEnded.cancelled = true :=
      (cancelled_joinEnded _).mpr (.inl hcancelled)
    rw [hstays, ← hcancelled]
    exact (hleft ht).2
  · -- Nothing that is left after the first round can end in the second.
    have hbefore : ¬s.cancelled = true := by
      intro h
      exact hcancelled (hfirst ▸ (cancelled_joinEnded _).mpr (.inl h))
    have hsame : s.cancelled = first.cancelled :=
      (Bool.eq_false_iff.mpr hbefore).trans (Bool.eq_false_iff.mpr hcancelled).symm
    have hstays : ¬(first.settle ending).joinEnded.cancelled = true := by
      rw [cancelled_joinEnded]
      rintro (h | ⟨e, he, -⟩)
      · exact hcancelled h
      · have hmem : e ∈ first.ended ++
            first.running.filterMap fun t => ending t first.cancelled := he
        rw [hended, List.nil_append] at hmem
        obtain ⟨t, ht, hends⟩ := List.mem_filterMap.mp hmem
        rw [hfirst] at ht
        rw [← hsame, (hleft ht).2] at hends
        cases hends
    rw [Bool.eq_false_iff.mpr hstays, ← Bool.eq_false_iff.mpr hcancelled]
    exact (hleft ht).2

end TaskSet

end LeaseKeeper
