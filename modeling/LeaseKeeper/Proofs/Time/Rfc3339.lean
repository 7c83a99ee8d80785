/-
Instants read back from the RFC 3339 text that is written for them.

* `spells_write` — what is written for an instant of a year from 0 to 9999 is one of its texts;
* `read_write` — so the instant reads back from it;
* `read_write_of_year` — the text of any other instant is refused at its first character.
-/
import LeaseKeeper.Proofs.Time.Spelling

namespace LeaseKeeper

theorem Instant.shift_zero (a : Instant) : a.shift 0 = a := by
  obtain ⟨seconds, nanos, hlt, hleap⟩ := a
  simp only [Instant.shift, Int.mul_zero, Int.add_zero]

namespace Rfc3339

open Text (padded)

theorem spellsFraction_fraction {nanos : Nat} (hn : nanos < 1000000000) :
    SpellsFraction nanos (fraction nanos) := by
  -- No digits, three, six or nine of them; in each case those that are left out are zeros.
  have hspells {width n : Nat} (hw : 0 < width) (hwidth : width ≤ 9) (hlt : n < 10 ^ width)
      (heq : 10 ^ (9 - width) * n = nanos) : SpellsFraction nanos ('.' :: padded width n) :=
    heq ▸ spellsFraction_padded hw hwidth hlt
  unfold fraction
  split
  · next h0 =>
    rw [h0]
    exact .none
  · split
    · exact hspells (by decide) (by decide) (by omega) (by omega)
    · split
      · exact hspells (by decide) (by decide) (by omega) (by omega)
      · exact hspells (by decide) (by decide) (by omega) (by omega)

theorem write_eq (a : Instant) :
    write a = a.civil.date.toChars ++
      'T' :: ((utcTime a).toChars ++ (fraction a.civil.nanos ++ ['Z'])) := by
  simp only [write, utcTime, TimeOfDay.toChars, List.append_assoc, List.cons_append,
    List.nil_append]

theorem spells_write {a : Instant} (hlow : 0 ≤ a.year) (hhigh : a.year ≤ 9999) :
    Spells a 0 (write a) := by
  have hnanos : a.civil.nanos < 1000000000 := Nat.mod_lt _ (by decide)
  have hshift := a.shift_zero
  have hspells : Spells a 0 _ := .mk (by rwa [hshift]) (by rwa [hshift]) List.mem_cons_self
    (spellsFraction_fraction hnanos) (.utc (.inl rfl))
  rw [hshift, ← write_eq] at hspells
  exact hspells

theorem read_write {a : Instant} (hlow : 0 ≤ a.year) (hhigh : a.year ≤ 9999) :
    read (write a) = .ok a :=
  read_spells (spells_write hlow hhigh)

/-- The sign of a year that has not four digits is no digit. -/
theorem read_write_of_year {a : Instant} (h : a.year < 0 ∨ 9999 < a.year) :
    read (write a) = .error .invalidCharacter := by
  -- The year comes first, with a sign where a digit is wanted.
  have hsign : ∃ c s, write a = c :: s ∧ Text.digit? c = none := by
    rw [write_eq, Date.toChars, yearText, if_neg (by rw [Instant.year] at h; omega)]
    by_cases hneg : a.civil.date.year < 0
    · exact ⟨'-', _, by rw [if_pos hneg]; rfl, rfl⟩
    · exact ⟨'+', _, by rw [if_neg hneg]; rfl, rfl⟩
  obtain ⟨c, s, hs, hc⟩ := hsign
  have hsize : ¬Text.Utf8.encodeSize (write a) < 19 := by
    rw [write_eq]
    exact Nat.not_lt.mpr (le_encodeSize _ _ _ _)
  rw [read, if_neg hsize, hs]
  simp only [bind, Except.bind, date, digits, hc]

end Rfc3339

end LeaseKeeper
