/-
The order of instants, and the time between two of them.

* `Instant.key`, `reached_iff` — instants are ordered by their seconds and then by their
  nanoseconds;
* `FollowsMidnightLeap` — one instant lies in the leap second at the end of a day, the other in the
  second after midnight;
* `since_eq_none_iff` — only between two such instants can the time that has gone by since an
  instant that has been reached be lost.

Design notes: the two ways of telling instants apart count a leap second differently.  The order
knows it as the nanoseconds from 10^9 on, so it lies before the second that follows.  The time
between two instants takes these nanoseconds off, and gives the second back if the second of the day
has grown; at midnight it has not.
-/
import LeaseKeeper.Time.Instant
import Mathlib.Data.Prod.Lex

namespace LeaseKeeper.Instant

variable {a b : Instant}

/-- What instants are ordered by. -/
def key (a : Instant) : ℤ ×ₗ ℕ := toLex (a.seconds, a.nanos)

theorem key_le_key : b.key ≤ a.key ↔
    b.seconds < a.seconds ∨ b.seconds = a.seconds ∧ b.nanos ≤ a.nanos :=
  Prod.Lex.toLex_le_toLex

theorem reached_iff : a.reached b = true ↔ b.key ≤ a.key := by
  rw [key_le_key, reached, isBefore]
  simp only [Bool.not_eq_true', Bool.or_eq_false_iff, Bool.and_eq_false_iff,
    decide_eq_false_iff_not, beq_eq_false_iff_ne]
  omega

/-- `b` lies in the leap second at the end of a day, and `a` in the second after midnight, less far
into it. -/
structure FollowsMidnightLeap (a b : Instant) : Prop where
  next : a.seconds = b.seconds + 1
  midnight : a.secondOfDay = 0
  earlier : a.nanos + 1000000000 < b.nanos

theorem cast_secondOfDay (a : Instant) : (a.secondOfDay : ℤ) = a.seconds % 86400 :=
  Int.toNat_of_nonneg (Int.emod_nonneg _ (by decide))

/-- The time since an instant that has been reached is counted as negative only after midnight. -/
theorem difference_lt_zero_iff (h : a.reached b = true) :
    a.difference b < 0 ↔ FollowsMidnightLeap a b := by
  have hleap := a.leap_ends_minute
  have hnanos := b.nanos_lt
  have ha := a.cast_secondOfDay
  have hb := b.cast_secondOfDay
  rw [reached_iff, key_le_key] at h
  rw [difference, leapCorrection]
  constructor
  · intro hneg
    by_cases hgrown : b.secondOfDay < a.secondOfDay ∧ 1000000000 ≤ b.nanos
    · -- The leap second that `b` lies in is given back.
      rw [if_pos hgrown] at hneg
      omega
    · rw [if_neg hgrown] at hneg
      by_cases hshrunk : a.secondOfDay < b.secondOfDay ∧ 1000000000 ≤ a.nanos
      · -- `a` ends a minute of a later day, so there is a minute at least to take a second off.
        rw [if_pos hshrunk] at hneg
        omega
      · rw [if_neg hshrunk] at hneg
        -- No more than the nanoseconds of `b` are taken off, so a single second has gone by.
        have hnext : a.seconds = b.seconds + 1 := by omega
        exact ⟨hnext, by omega, by omega⟩
  · rintro ⟨hnext, hmidnight, hearlier⟩
    rw [if_neg (by omega), if_neg (by omega)]
    omega

/-- Where an instant has been reached, the time since then is known but for the second after
midnight. -/
theorem since_eq_none_iff (h : a.reached b = true) :
    a.since b = none ↔ FollowsMidnightLeap a b := by
  rw [← difference_lt_zero_iff h, since, ite_eq_right_iff]
  simp

end LeaseKeeper.Instant
