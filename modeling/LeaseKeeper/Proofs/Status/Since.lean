/-
For how long a lease has been run out, and how that is shown.

* `overdue_eq_some_iff`, `isExpired_iff` — the two questions in terms of the expiry;
* `since_isSome_iff` — a lease that has expired shows since when, but in the second after the leap
  second at the end of a day;
* `read?_minuteText` — an expiry does not read as an elapsed time;
* `since_legible` — what is shown stands for the whole seconds that have gone by, up to a day.
-/
import LeaseKeeper.Proofs.Time.Elapsed
import LeaseKeeper.Proofs.Time.Order
import LeaseKeeper.StatusPage

namespace LeaseKeeper

variable {l : Lease} {now t : Instant} {d : Nat}

/-! ### Whether the elapsed time is known -/

theorem isExpired_iff : l.isExpired now = true ↔ ∃ t, l.expiry = some t ∧ now.reached t = true := by
  rw [Lease.isExpired, Option.any_eq_true]

theorem overdue_eq_some_iff : l.overdue now = some d ↔
    ∃ t, l.expiry = some t ∧ now.reached t = true ∧ now.since t = some d := by
  simp only [Lease.overdue, Option.bind_eq_some_iff, Option.filter_eq_some_iff, and_assoc]

theorem overdue_isSome_iff : (l.overdue now).isSome = true ↔
    l.isExpired now = true ∧ ¬∃ t ∈ l.expiry, now.FollowsMidnightLeap t := by
  rw [Option.isSome_iff_exists, isExpired_iff]
  constructor
  · rintro ⟨d, hd⟩
    obtain ⟨t, ht, hreached, hsince⟩ := overdue_eq_some_iff.mp hd
    refine ⟨⟨t, ht, hreached⟩, ?_⟩
    rintro ⟨u, hu, hleap⟩
    obtain rfl : t = u := Option.some.inj (ht.symm.trans hu)
    rw [(Instant.since_eq_none_iff hreached).mpr hleap] at hsince
    cases hsince
  · rintro ⟨⟨t, ht, hreached⟩, hleap⟩
    have hne : now.since t ≠ none := fun hnone =>
      hleap ⟨t, ht, (Instant.since_eq_none_iff hreached).mp hnone⟩
    obtain ⟨d, hd⟩ := Option.ne_none_iff_exists'.mp hne
    exact ⟨d, overdue_eq_some_iff.mpr ⟨t, ht, hreached, hd⟩⟩

/-- **When a lease shows since when it has been run out.**  The elapsed time is known, and shown, if
the lease has expired, unless its expiry lies in the leap second at the end of a day and the clock
shows the second after midnight, less far into it. -/
theorem since_isSome_iff (l : Lease) (vendors : VendorTable) (now : Instant) :
    ((l.overdue now).isSome = true ↔
      l.isExpired now = true ∧ ¬∃ t ∈ l.expiry, now.FollowsMidnightLeap t) ∧
    ((LeaseRow.ofLease vendors now l).since.isSome = true ↔
      (LeaseRow.ofLease vendors now l).expired = true ∧
        ¬∃ t ∈ l.expiry, now.FollowsMidnightLeap t) := by
  refine ⟨overdue_isSome_iff, ?_⟩
  have hshown : (LeaseRow.ofLease vendors now l).since.isSome = (l.overdue now).isSome := by
    simp only [LeaseRow.ofLease, Lease.overdue]
    cases l.expiry with
    | none => rfl
    | some t => rw [Option.bind_some, Option.isSome_map]
  rw [hshown]
  exact overdue_isSome_iff

/-- A lease that runs out halfway through a leap second at the end of a day. -/
def leapLease : Lease where
  ordinal := 1
  address := .ofOctets 10 0 0 1
  hardwareAddress := ⟨⟨2, 0, 0⟩, ⟨0, 0, 1⟩⟩
  hostname := ""
  hostnameOverride := ""
  expiry := some ⟨86399, 1500000000, by decide, fun _ => by decide⟩

/-- At midnight, half a second later, it is shown as expired, but not since when. -/
theorem since_isSome_leapLease : leapLease.isExpired (.ofSeconds 86400) = true ∧
    leapLease.overdue (.ofSeconds 86400) = none ∧
    (LeaseRow.ofLease .empty (.ofSeconds 86400) leapLease).since = none := by
  have hleap : ∃ t ∈ leapLease.expiry, (Instant.ofSeconds 86400).FollowsMidnightLeap t :=
    ⟨_, rfl, ⟨rfl, rfl, by decide⟩⟩
  have hiff := since_isSome_iff leapLease .empty (.ofSeconds 86400)
  exact ⟨by decide, Option.not_isSome_iff_eq_none.mp fun h => (hiff.1.mp h).2 hleap,
    Option.not_isSome_iff_eq_none.mp fun h => (hiff.2.mp h).2 hleap⟩

/-! ### What is shown -/

theorem since_ofLease (h : l.overdue now = some d) (vendors : VendorTable) :
    ∃ t, l.expiry = some t ∧ (LeaseRow.ofLease vendors now l).since = some (sinceText t d) := by
  obtain ⟨t, ht, -, -⟩ := overdue_eq_some_iff.mp h
  refine ⟨t, ht, ?_⟩
  simp only [LeaseRow.ofLease, ht, h, Option.bind_some, Option.map_some]

/-- The date of an expiry has dashes. -/
theorem read?_minuteText (t : Instant) : Elapsed.read? t.minuteText.toList = none := by
  refine Elapsed.read?_eq_none ?_
  simp only [Instant.minuteText, Date.toChars, String.toList_ofList, List.mem_append,
    List.mem_singleton, or_true, true_or]

theorem sinceText_of_lt (h : longestElapsed < d) : sinceText t d = t.minuteText := if_pos h

theorem sinceText_of_le (h : d ≤ longestElapsed) :
    sinceText t d = String.ofList (Elapsed.toChars (d / 1000000000)) :=
  if_neg (Nat.not_lt.mpr h)

theorem spells_sinceText (h : d ≤ longestElapsed) :
    Elapsed.Spells (sinceText t d).toList (d / 1000000000) := by
  rw [sinceText_of_le h, String.toList_ofList]
  rw [longestElapsed] at h
  exact Elapsed.spells_toChars (by omega)

/-- What is shown reads as an elapsed time exactly if that is at most a day. -/
theorem read?_sinceText (t : Instant) (d : Nat) : Elapsed.read? (sinceText t d).toList =
    if d ≤ longestElapsed then some (d / 1000000000) else none := by
  by_cases h : d ≤ longestElapsed
  · rw [if_pos h]
    exact Elapsed.read?_of_spells (spells_sinceText h)
  · rw [if_neg h, sinceText_of_lt (Nat.not_le.mp h)]
    exact read?_minuteText t

/-- Two leases say the same, one of them an elapsed time, if it is the same in whole seconds. -/
theorem sinceText_eq_iff {u : Instant} {e : Nat} (h : d ≤ longestElapsed) :
    sinceText u e = sinceText t d ↔ e ≤ longestElapsed ∧ e / 1000000000 = d / 1000000000 := by
  constructor
  · intro hsame
    have hread := read?_sinceText u e
    rw [hsame, read?_sinceText, if_pos h] at hread
    split at hread
    · next hshort => exact ⟨hshort, (Option.some.inj hread).symm⟩
    · cases hread
  · rintro ⟨hshort, hseconds⟩
    rw [sinceText_of_le h, sinceText_of_le hshort, hseconds]

/-- **What the page says of a lease that has been run out for some time.**  If that is more than a
day, by a nanosecond even, it says the same as the expiry, which reads as no elapsed time.
Otherwise it is a text of the whole seconds that have gone by, and reads as them; and another lease
says the same exactly if it has been run out for no more than a day either, and for as many whole
seconds. -/
theorem since_legible (h : l.overdue now = some d) (vendors : VendorTable) :
    let row := LeaseRow.ofLease vendors now l
    (24 * 60 * 60 * 1000000000 < d → ∃ text, row.since = some text ∧ row.expiry = some text ∧
      Elapsed.read? text.toList = none) ∧
    (d ≤ 24 * 60 * 60 * 1000000000 → ∃ text, row.since = some text ∧
      Elapsed.Spells text.toList (d / 1000000000) ∧
      Elapsed.read? text.toList = some (d / 1000000000) ∧
      ∀ (l' : Lease) (vendors' : VendorTable) (now' : Instant) (d' : Nat),
        l'.overdue now' = some d' → ((LeaseRow.ofLease vendors' now' l').since = some text ↔
          d' ≤ 24 * 60 * 60 * 1000000000 ∧ d' / 1000000000 = d / 1000000000)) := by
  obtain ⟨t, ht, hsince⟩ := since_ofLease h vendors
  refine ⟨fun hlong => ⟨t.minuteText, ?_, ?_, read?_minuteText t⟩, fun hshort => ?_⟩
  · rw [hsince, sinceText_of_lt hlong]
  · simp only [LeaseRow.ofLease, ht, Option.map_some]
  · refine ⟨sinceText t d, hsince, spells_sinceText hshort,
      (read?_sinceText t d).trans (if_pos hshort), fun l' vendors' now' d' h' => ?_⟩
    obtain ⟨t', -, hsince'⟩ := since_ofLease h' vendors'
    rw [hsince', Option.some.injEq]
    exact sinceText_eq_iff hshort

/-- A lease that runs out at the epoch. -/
def epochLease : Lease := { leapLease with expiry := some .epoch }

/-- A day later it has been run out for 86400 seconds, and says so; a nanosecond after that it says
when it has run out. -/
theorem since_legible_day :
    let later : Instant := ⟨86400, 1, by decide, by decide⟩
    epochLease.overdue (.ofSeconds 86400) = some 86400000000000 ∧
    epochLease.overdue later = some 86400000000001 ∧
    (∃ text, (LeaseRow.ofLease .empty (.ofSeconds 86400) epochLease).since = some text ∧
      Elapsed.read? text.toList = some 86400 ∧
      (LeaseRow.ofLease .empty later epochLease).since ≠ some text) ∧
    ∃ text, (LeaseRow.ofLease .empty later epochLease).since = some text ∧
      (LeaseRow.ofLease .empty later epochLease).expiry = some text := by
  intro later
  have hday : epochLease.overdue (.ofSeconds 86400) = some 86400000000000 := by decide
  have hlater : epochLease.overdue later = some 86400000000001 := by decide
  obtain ⟨text, hsince, -, hread, hsame⟩ := (since_legible hday .empty).2 (by decide)
  obtain ⟨text', hsince', hexpiry, -⟩ := (since_legible hlater .empty).1 (by decide)
  refine ⟨hday, hlater, ⟨text, hsince, hread, fun h => ?_⟩, text', hsince', hexpiry⟩
  exact absurd ((hsame _ _ _ _ hlater).mp h).1 (by decide)

end LeaseKeeper
