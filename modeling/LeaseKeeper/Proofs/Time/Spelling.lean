/-
The texts of an instant.

* `Instant.shift` — the instant at which a clock in UTC shows what a clock ahead of UTC shows now;
* `Rfc3339.Spells` — the texts of an instant with a given offset from UTC: any separator between
  date and time, any number of digits in the fraction, and every form of the offset;
* `read_spells` — every such text is read as that instant;
* `spells_of_read`, `read_eq_ok_iff` — and no other text is read at all.

Design notes: the part of a reader in both directions is the same fact about its text, that it is
the text of what is read with anything after it.  Only the fraction, and with it the time of day,
wants something after it that does not go on with a digit.
-/
import LeaseKeeper.Proofs.Except
import LeaseKeeper.Proofs.Text.Numerals
import LeaseKeeper.Proofs.Time.Calendar
import LeaseKeeper.Time.Rfc3339
import Mathlib.Data.List.Basic

namespace LeaseKeeper

/-- The instant at which a clock in UTC shows what a clock that is some minutes ahead shows at
`a`. -/
def Instant.shift (a : Instant) (minutes : Int) : Instant where
  seconds := a.seconds + 60 * minutes
  nanos := a.nanos
  nanos_lt := a.nanos_lt
  leap_ends_minute h := by
    have := a.leap_ends_minute h
    omega

namespace Rfc3339

open Text (padded padded_length mem_padded_isDigit ofDigitChars_padded padded_ofDigitChars)

/-! ### Texts -/

/-- A time of day up to its second. -/
def TimeOfDay.toChars (t : TimeOfDay) : List Char :=
  padded 2 t.hour ++ ':' :: (padded 2 t.minute ++ ':' :: padded 2 t.second)

/-- The time of day of an instant in UTC as it is written. -/
def utcTime (a : Instant) : TimeOfDay where
  hour := a.civil.hour
  minute := a.civil.minute
  second := a.civil.second
  nanos := a.civil.nanos

/-- The fractions of a second: any digits, of which the first nine stand for the nanoseconds as if
zeros followed.  Without nanoseconds there need not be one. -/
inductive SpellsFraction : Nat → List Char → Prop
  | none : SpellsFraction 0 []
  | digits {nanos : Nat} {ds : List Char} : ds ≠ [] → (∀ c ∈ ds, c.isDigit = true) →
    (ds ++ List.replicate 9 '0').take 9 = padded 9 nanos → SpellsFraction nanos ('.' :: ds)

/-- The hours and minutes of an offset. -/
def offsetChars (minutes : Nat) : List Char :=
  padded 2 (minutes / 60) ++ ':' :: padded 2 (minutes % 60)

/-- The offsets from UTC of less than a day. -/
inductive SpellsOffset : Int → List Char → Prop
  | utc {c : Char} : c = 'Z' ∨ c = 'z' → SpellsOffset 0 [c]
  | ahead {minutes : Nat} : minutes < offsetLimit →
    SpellsOffset minutes ('+' :: offsetChars minutes)
  | behind {c : Char} {minutes : Nat} : c = '-' ∨ c = '\u2212' → minutes < offsetLimit →
    SpellsOffset (-minutes) (c :: offsetChars minutes)

/-- The texts of an instant by a clock with an offset from UTC.  The year by that clock has four
digits. -/
inductive Spells (a : Instant) (offset : Int) : List Char → Prop
  | mk {separator : Char} {fraction zone : List Char} :
    0 ≤ (a.shift offset).year → (a.shift offset).year ≤ 9999 →
    separator ∈ ['T', 't', ' '] → SpellsFraction a.civil.nanos fraction →
    SpellsOffset offset zone →
    Spells a offset ((a.shift offset).civil.date.toChars ++
      separator :: ((utcTime (a.shift offset)).toChars ++ (fraction ++ zone)))

/-! ### Numbers of fixed width -/

theorem digits_append {ds : List Char} (hd : ∀ c ∈ ds, c.isDigit = true) (value : Nat)
    (rest : List Char) :
    digits ds.length value (ds ++ rest) = .ok (Nat.ofDigitChars 10 ds value, rest) := by
  induction ds generalizing value with
  | nil => rfl
  | cons c ds ih =>
    have hc := Text.digit?_of_isDigit (hd c List.mem_cons_self)
    rw [List.length_cons, List.cons_append, digits, hc, Nat.ofDigitChars_cons]
    exact ih (fun d hmem => hd d (List.mem_cons_of_mem c hmem)) _

theorem digits_padded {width n : Nat} (hw : 0 < width) (hn : n < 10 ^ width) (rest : List Char) :
    digits width 0 (padded width n ++ rest) = .ok (n, rest) := by
  have hdigit : ∀ c ∈ padded width n, c.isDigit = true := fun _ => mem_padded_isDigit
  have h := digits_append hdigit 0 rest
  rw [padded_length hw hn, ofDigitChars_padded] at h
  exact h

theorem exists_digits {width value n : Nat} {s rest : List Char}
    (h : digits width value s = .ok (n, rest)) :
    ∃ ds, ds.length = width ∧ (∀ c ∈ ds, c.isDigit = true) ∧ s = ds ++ rest ∧
      n = Nat.ofDigitChars 10 ds value := by
  induction width generalizing value s with
  | zero =>
    cases h
    exact ⟨[], rfl, nofun, rfl, rfl⟩
  | succ width ih =>
    cases s with
    | nil => cases h
    | cons c s =>
      rw [digits] at h
      split at h
      · next d hd =>
        obtain ⟨hc, rfl⟩ := Text.isDigit_of_digit? hd
        obtain ⟨ds, hlength, hds, rfl, rfl⟩ := ih h
        refine ⟨c :: ds, congrArg (· + 1) hlength, ?_, rfl, Nat.ofDigitChars_cons.symm⟩
        intro x hx
        rcases List.mem_cons.mp hx with rfl | hx
        · exact hc
        · exact hds x hx
      · cases h

/-- A number that is read is written in front of the rest. -/
theorem eq_padded_of_digits {width n : Nat} (hw : 0 < width) {s rest : List Char}
    (h : digits width 0 s = .ok (n, rest)) : s = padded width n ++ rest ∧ n < 10 ^ width := by
  obtain ⟨ds, rfl, hds, rfl, rfl⟩ := exists_digits h
  have hpadded := padded_ofDigitChars (List.ne_nil_of_length_pos hw) hds
  refine ⟨by rw [hpadded], ?_⟩
  rw [← Nat.length_toDigits_le_iff (by decide) hw]
  have hlength := congrArg List.length hpadded
  rw [padded, List.length_append] at hlength
  exact Nat.le_trans (Nat.le_add_left _ _) (Nat.le_of_eq hlength)

theorem oneOf_cons {allowed : List Char} {c : Char} (h : c ∈ allowed) (rest : List Char) :
    oneOf allowed (c :: rest) = .ok rest :=
  if_pos h

theorem exists_oneOf {allowed s rest : List Char} (h : oneOf allowed s = .ok rest) :
    ∃ c ∈ allowed, s = c :: rest := by
  cases s with
  | nil => cases h
  | cons c s =>
    rw [oneOf] at h
    split at h
    · next hc =>
      cases h
      exact ⟨c, hc, rfl⟩
    · cases h

theorem eq_cons_of_oneOf {c : Char} {s rest : List Char} (h : oneOf [c] s = .ok rest) :
    s = c :: rest := by
  obtain ⟨d, hd, rfl⟩ := exists_oneOf h
  rw [List.mem_singleton.mp hd]

/-! ### Dates -/

theorem date_toChars {d : Date} (hvalid : d.isValid = true) (hlow : 0 ≤ d.year)
    (hhigh : d.year ≤ 9999) (rest : List Char) : date (d.toChars ++ rest) = .ok (d, rest) := by
  obtain ⟨-, hmonth, -, hday⟩ := Date.isValid_iff.mp hvalid
  -- Month and day fit into two digits, and the year into four.
  have hday31 : d.day ≤ 31 := Nat.le_trans hday (Date.daysInMonth_le d.year d.month)
  have hyear : ((d.year.toNat : Nat) : Int) = d.year := by omega
  rw [Date.toChars, yearText, if_pos ⟨hlow, hhigh⟩]
  simp only [List.append_assoc, List.cons_append, List.nil_append, date]
  rw [digits_padded (by decide) (by omega)]
  simp only [bind, Except.bind, oneOf_cons List.mem_cons_self]
  rw [digits_padded (by decide) (by omega)]
  simp only [oneOf_cons List.mem_cons_self]
  rw [digits_padded (by decide) (by omega)]
  simp only [hyear, hvalid, if_true]

theorem eq_toChars_of_date {d : Date} {s rest : List Char} (h : date s = .ok (d, rest)) :
    s = d.toChars ++ rest ∧ d.isValid = true ∧ 0 ≤ d.year ∧ d.year ≤ 9999 := by
  simp only [date, bind_eq_ok, Prod.exists] at h
  obtain ⟨year, _, hyear, _, hfirst, month, _, hmonth, _, hsecond, day, _, hday, h⟩ := h
  obtain ⟨rfl, hlt⟩ := eq_padded_of_digits (by decide) hyear
  obtain rfl := eq_cons_of_oneOf hfirst
  obtain ⟨rfl, -⟩ := eq_padded_of_digits (by decide) hmonth
  obtain rfl := eq_cons_of_oneOf hsecond
  obtain ⟨rfl, -⟩ := eq_padded_of_digits (by decide) hday
  split at h
  · next hvalid =>
    cases h
    have hlow : (0 : Int) ≤ year := Int.natCast_nonneg year
    have hhigh : (year : Int) ≤ 9999 := by omega
    refine ⟨?_, hvalid, hlow, hhigh⟩
    rw [Date.toChars, yearText, if_pos ⟨hlow, hhigh⟩]
    simp only [List.append_assoc, List.cons_append, List.nil_append, Int.toNat_natCast]
  · cases h

/-! ### Fractions -/

/-- A text that does not go on with a digit. -/
def EndsDigits (s : List Char) : Prop := ∀ c t, s = c :: t → c.isDigit = false

theorem takeWhile_isDigit {ds rest : List Char} (hd : ∀ c ∈ ds, c.isDigit = true)
    (hrest : EndsDigits rest) :
    (ds ++ rest).takeWhile Char.isDigit = ds ∧ (ds ++ rest).dropWhile Char.isDigit = rest := by
  rw [List.takeWhile_append_of_pos hd, List.dropWhile_append_of_pos hd]
  cases rest with
  | nil => simp
  | cons c t =>
    have hc := hrest c t rfl
    simp [hc]

/-- The first nine of some digits with zeros after them. -/
theorem isDigit_firstNine {ds : List Char} (h : ∀ c ∈ ds, c.isDigit = true) :
    (∀ c ∈ (ds ++ List.replicate 9 '0').take 9, c.isDigit = true) ∧
      ((ds ++ List.replicate 9 '0').take 9).length = 9 := by
  constructor
  · intro c hc
    rcases List.mem_append.mp (List.mem_of_mem_take hc) with hc | hc
    · exact h c hc
    · rw [List.eq_of_mem_replicate hc]
      rfl
  · rw [List.length_take, List.length_append, List.length_replicate]
    omega

theorem spellsFraction_iff {nanos : Nat} {ds : List Char} (hne : ds ≠ [])
    (hd : ∀ c ∈ ds, c.isDigit = true) :
    SpellsFraction nanos ('.' :: ds) ↔ nanosOfDigits ds = nanos := by
  obtain ⟨hdigits, hlength⟩ := isDigit_firstNine hd
  rw [nanosOfDigits]
  constructor
  · intro h
    cases h with
    | digits _ _ h => rw [h, ofDigitChars_padded]
  · rintro rfl
    have hpadded := padded_ofDigitChars (List.ne_nil_of_length_pos (by omega)) hdigits
    rw [hlength] at hpadded
    exact .digits hne hd hpadded.symm

/-- Up to nine digits of a fraction stand for as many nanoseconds as if zeros followed. -/
theorem spellsFraction_padded {width n : Nat} (hw : 0 < width) (hwidth : width ≤ 9)
    (hn : n < 10 ^ width) : SpellsFraction (10 ^ (9 - width) * n) ('.' :: padded width n) := by
  have hlength := padded_length hw hn
  refine (spellsFraction_iff ?_ fun _ => mem_padded_isDigit).mpr ?_
  · exact List.ne_nil_of_length_pos (by omega)
  · rw [nanosOfDigits, List.take_append, hlength, List.take_of_length_le (by omega),
      List.take_replicate, Nat.min_eq_left (by omega), Nat.ofDigitChars_append,
      ofDigitChars_padded, Nat.ofDigitChars_replicate_zero]

theorem fractionNanos_spells {nanos : Nat} {fraction rest : List Char}
    (h : SpellsFraction nanos fraction) (hrest : EndsDigits rest)
    (hpoint : rest.head? ≠ some '.') : fractionNanos (fraction ++ rest) = .ok (nanos, rest) := by
  cases h with
  | none =>
    rw [List.nil_append]
    unfold fractionNanos
    split
    · exact absurd rfl hpoint
    · rfl
  | @digits _ ds hne hd hnine =>
    obtain ⟨htake, hdrop⟩ := takeWhile_isDigit hd hrest
    rw [← (spellsFraction_iff hne hd).mp (.digits hne hd hnine)]
    obtain ⟨c, ds, rfl⟩ := List.exists_cons_of_ne_nil hne
    rw [List.cons_append] at htake hdrop
    simp only [List.cons_append, fractionNanos, htake, hdrop]

theorem exists_fraction {nanos : Nat} {s rest : List Char}
    (h : fractionNanos s = .ok (nanos, rest)) :
    ∃ fraction, SpellsFraction nanos fraction ∧ s = fraction ++ rest := by
  unfold fractionNanos at h
  split at h
  · next t =>
    have hdigits : ∀ c ∈ t.takeWhile Char.isDigit, c.isDigit = true :=
      List.all_eq_true.mp List.all_takeWhile
    split at h
    · cases h
    · cases h
    · next t _ _ hend hmore =>
      cases h
      refine ⟨'.' :: t.takeWhile Char.isDigit, (spellsFraction_iff ?_ hdigits).mpr rfl, ?_⟩
      · intro hnil
        cases t with
        | nil => exact hend hnil rfl
        | cons c t => exact hmore c t hnil rfl
      · rw [List.cons_append, List.takeWhile_append_dropWhile]
  · cases h
    exact ⟨[], .none, rfl⟩

/-! ### Times of day -/

theorem timeOfDay_toChars {t : TimeOfDay} {fraction rest : List Char} (hvalid : t.isValid = true)
    (hfraction : SpellsFraction t.nanos fraction) (hrest : EndsDigits rest)
    (hpoint : rest.head? ≠ some '.') :
    timeOfDay (t.toChars ++ (fraction ++ rest)) = .ok (t, rest) := by
  have ht := hvalid
  simp only [TimeOfDay.isValid, Bool.and_eq_true, decide_eq_true_eq] at ht
  obtain ⟨⟨hhour, hminute⟩, hsecond⟩ := ht
  rw [TimeOfDay.toChars]
  simp only [List.append_assoc, List.cons_append, timeOfDay]
  rw [digits_padded (by decide) (by omega)]
  simp only [bind, Except.bind, oneOf_cons List.mem_cons_self]
  rw [digits_padded (by decide) (by omega)]
  simp only [oneOf_cons List.mem_cons_self]
  rw [digits_padded (by decide) (by omega)]
  simp only [fractionNanos_spells hfraction hrest hpoint, hvalid, if_true]

theorem exists_timeOfDay {t : TimeOfDay} {s rest : List Char} (h : timeOfDay s = .ok (t, rest)) :
    t.isValid = true ∧ ∃ fraction, SpellsFraction t.nanos fraction ∧
      s = t.toChars ++ (fraction ++ rest) := by
  simp only [timeOfDay, bind_eq_ok, Prod.exists] at h
  obtain ⟨hour, _, hhour, _, hfirst, minute, _, hminute, _, hsecond, second, _, hlast, nanos, _,
    hnanos, h⟩ := h
  obtain ⟨rfl, -⟩ := eq_padded_of_digits (by decide) hhour
  obtain rfl := eq_cons_of_oneOf hfirst
  obtain ⟨rfl, -⟩ := eq_padded_of_digits (by decide) hminute
  obtain rfl := eq_cons_of_oneOf hsecond
  obtain ⟨rfl, -⟩ := eq_padded_of_digits (by decide) hlast
  obtain ⟨fraction, hfraction, rfl⟩ := exists_fraction hnanos
  split at h
  · next hvalid =>
    cases h
    refine ⟨hvalid, fraction, hfraction, ?_⟩
    simp only [TimeOfDay.toChars, List.append_assoc, List.cons_append]
  · cases h

/-! ### Offsets -/

theorem digit_lt {c : Char} (h : c.isDigit = true) : c.toNat - '0'.toNat < 10 := by
  have hzero : '0'.toNat = 48 := rfl
  have := Text.toNat_isDigit h
  omega

/-- Two digits, and the number that they stand for. -/
theorem ofDigitChars_pair (c d : Char) : Nat.ofDigitChars 10 [c, d] 0 =
    10 * (c.toNat - '0'.toNat) + (d.toNat - '0'.toNat) := by
  rw [Nat.ofDigitChars_cons, Nat.ofDigitChars_cons, Nat.mul_zero, Nat.zero_add]
  rfl

theorem offsetDigits_padded {n : Nat} (hn : n < 100) (rest : List Char) :
    offsetDigits (padded 2 n ++ rest) = .ok ((n / 10, n % 10), rest) := by
  have hlength : (padded 2 n).length = 2 := padded_length (by decide) hn
  obtain ⟨c, d, hcd⟩ := List.length_eq_two.mp hlength
  have hdigit : ∀ x ∈ [c, d], x.isDigit = true := fun x hx => mem_padded_isDigit (hcd ▸ hx)
  have hc := hdigit c List.mem_cons_self
  have hd := hdigit d (List.mem_cons_of_mem c List.mem_cons_self)
  have hvalue := ofDigitChars_padded 2 n
  have hlt := digit_lt hd
  rw [hcd, ofDigitChars_pair] at hvalue
  rw [hcd]
  simp only [List.cons_append, List.nil_append, offsetDigits, Text.digit?_of_isDigit hc,
    Text.digit?_of_isDigit hd, Except.ok.injEq, Prod.mk.injEq, and_true]
  omega

theorem eq_padded_of_offsetDigits {tens ones : Nat} {s rest : List Char}
    (h : offsetDigits s = .ok ((tens, ones), rest)) :
    s = padded 2 (10 * tens + ones) ++ rest ∧ tens < 10 ∧ ones < 10 := by
  unfold offsetDigits at h
  split at h
  · cases h
  · cases h
  · next c d s =>
    split at h
    · next high low hhigh hlow =>
      cases h
      obtain ⟨hc, rfl⟩ := Text.isDigit_of_digit? hhigh
      obtain ⟨hd, rfl⟩ := Text.isDigit_of_digit? hlow
      have hpadded := padded_ofDigitChars (List.cons_ne_nil c [d])
        (List.forall_mem_cons.mpr ⟨hc, List.forall_mem_singleton.mpr hd⟩)
      rw [ofDigitChars_pair] at hpadded
      exact ⟨congrArg (· ++ rest) hpadded.symm, digit_lt hc, digit_lt hd⟩
    · cases h

theorem offsetMinutes_sign {c : Char} (hc : c = '+' ∨ c = '-' ∨ c = '\u2212') {n : Nat}
    (hn : n < offsetLimit) (rest : List Char) : offsetMinutes (c :: (offsetChars n ++ rest)) =
      .ok (if c = '+' then (n : Int) else -n, rest) := by
  have hutc : ¬(c = 'Z' ∨ c = 'z') := by
    rcases hc with rfl | rfl | rfl <;> decide
  have hsign : ¬(c ≠ '+' ∧ c ≠ '-' ∧ c ≠ '\u2212') := by
    rintro ⟨hplus, hminus, hlong⟩
    exact hc.elim hplus fun h => h.elim hminus hlong
  have hlimit : offsetLimit = 1440 := rfl
  have hhours : n / 60 < 100 := by omega
  have hminutes : n % 60 < 100 := by omega
  have hsmall : ¬6 ≤ n % 60 / 10 := by omega
  have hvalue : 60 * ((10 * (n / 60 / 10) + n / 60 % 10 : Nat) : Int) +
      10 * ((n % 60 / 10 : Nat) : Int) + ((n % 60 % 10 : Nat) : Int) = n := by omega
  simp only [offsetMinutes, if_neg hutc, if_neg hsign, offsetChars, List.append_assoc,
    List.cons_append, offsetDigits_padded hhours, bind, Except.bind,
    oneOf_cons List.mem_cons_self, offsetDigits_padded hminutes, if_neg hsmall, hvalue, pure,
    Except.pure]

theorem offsetMinutes_spells {offset : Int} {zone : List Char} (h : SpellsOffset offset zone)
    (rest : List Char) : offsetMinutes (zone ++ rest) = .ok (offset, rest) := by
  cases h with
  | utc hc => exact if_pos hc
  | ahead hn => exact offsetMinutes_sign (.inl rfl) hn rest
  | @behind c n hc hn =>
    have hplus : c ≠ '+' := by
      rcases hc with rfl | rfl <;> decide
    rw [List.cons_append, offsetMinutes_sign (.inr hc) hn, if_neg hplus]

theorem exists_offset {offset : Int} {s rest : List Char} (h : offsetMinutes s = .ok (offset, rest))
    (hlt : offset.natAbs < offsetLimit) : ∃ zone, SpellsOffset offset zone ∧ s = zone ++ rest := by
  cases s with
  | nil => cases h
  | cons c s =>
    simp only [offsetMinutes] at h
    split at h
    · next hutc =>
      cases h
      exact ⟨[c], .utc hutc, rfl⟩
    · split at h
      · cases h
      · next hsign =>
        simp only [bind_eq_ok, Prod.exists] at h
        obtain ⟨tens, ones, _, hhours, _, hcolon, tens', ones', _, hminutes, h⟩ := h
        obtain ⟨rfl, htens, hones⟩ := eq_padded_of_offsetDigits hhours
        obtain rfl := eq_cons_of_oneOf hcolon
        obtain ⟨rfl, htens', hones'⟩ := eq_padded_of_offsetDigits hminutes
        split at h
        · cases h
        · next hsmall =>
          -- Hours and minutes are the two parts of the number of minutes.
          obtain ⟨n, hn⟩ : ∃ n, n = 60 * (10 * tens + ones) + (10 * tens' + ones') := ⟨_, rfl⟩
          have hparts : n / 60 = 10 * tens + ones ∧ n % 60 = 10 * tens' + ones' := by omega
          have hvalue : 60 * ((10 * tens + ones : Nat) : Int) + 10 * (tens' : Int) + ones' = n := by
            omega
          rw [hvalue] at h
          cases h
          have hlimit : n < offsetLimit := by
            split at hlt <;> omega
          refine ⟨c :: offsetChars n, ?_, ?_⟩
          · by_cases hplus : c = '+'
            · subst hplus
              exact .ahead hlimit
            · rw [if_neg hplus]
              refine .behind (Classical.byContradiction fun hminus => hsign ?_) hlimit
              exact ⟨hplus, not_or.mp hminus⟩
          · rw [offsetChars, hparts.1, hparts.2, List.cons_append, List.append_assoc,
              List.cons_append]

/-! ### Instants -/

theorem secondOfDay_lt (a : Instant) : a.secondOfDay < 86400 := by
  simp only [Instant.secondOfDay]
  omega

theorem utcTime_isValid (a : Instant) : (utcTime a).isValid = true := by
  have hday := secondOfDay_lt a
  have hn := a.nanos_lt
  have hhour : (utcTime a).hour = a.secondOfDay / 3600 := rfl
  have hminute : (utcTime a).minute = a.secondOfDay / 60 % 60 := rfl
  have hsecond : (utcTime a).second = a.secondOfDay % 60 + a.nanos / 1000000000 := rfl
  simp only [TimeOfDay.isValid, Bool.and_eq_true, decide_eq_true_eq]
  omega

theorem make?_eq_some_iff {seconds : Int} {nanos : Nat} {a : Instant} :
    Instant.make? seconds nanos = some a ↔ a.seconds = seconds ∧ a.nanos = nanos := by
  obtain ⟨s, n, hn, hleap⟩ := a
  rw [Instant.make?]
  split
  · simp [eq_comm]
  · next hnot =>
    refine iff_of_false nofun ?_
    rintro ⟨rfl, rfl⟩
    exact hnot ⟨hn, hleap⟩

/-- The date is that of a number of days exactly if it has this day number. -/
theorem ofDayNumber_eq_iff {d : Date} (hd : d.isValid = true) {n : Int} :
    Date.ofDayNumber n = d ↔ n = d.dayNumber := by
  constructor
  · rintro rfl
    exact (Date.dayNumber_ofDayNumber n).symm
  · rintro rfl
    exact Date.ofDayNumber_dayNumber_of_isValid hd

/-- A date and a time of day are what a clock shows at an instant exactly if they are that instant
by its offset. -/
theorem instant_eq_some_iff {d : Date} {t : TimeOfDay} {offset : Int} {a : Instant}
    (hd : d.isValid = true) (ht : t.isValid = true) (hn : t.nanos < 1000000000) :
    instant d t offset = some a ↔
      (a.shift offset).civil.date = d ∧ utcTime (a.shift offset) = t := by
  obtain ⟨hour, minute, second, nanos⟩ := t
  simp only [TimeOfDay.isValid, Bool.and_eq_true, decide_eq_true_eq] at ht
  obtain ⟨seconds, total, hlt, hleap⟩ := a
  obtain ⟨m, hm⟩ : ∃ m : Nat, m = ((seconds + 60 * offset) % 86400).toNat := ⟨_, rfl⟩
  have hday : (m : Int) = (seconds + 60 * offset) % 86400 := by omega
  have hdate : (Instant.shift ⟨seconds, total, hlt, hleap⟩ offset).civil.date =
      Date.ofDayNumber ((seconds + 60 * offset) / 86400) := rfl
  have htime : utcTime (Instant.shift ⟨seconds, total, hlt, hleap⟩ offset) =
      ⟨m / 3600, m / 60 % 60, m % 60 + total / 1000000000, total % 1000000000⟩ := by
    rw [hm]
    rfl
  rw [hdate, ofDayNumber_eq_iff hd, htime, TimeOfDay.mk.injEq, instant]
  dsimp only at hn ⊢
  -- In a leap second the text has the second 60, and the instant the nanoseconds.
  by_cases hlast : second = 60
  · rw [if_pos hlast, make?_eq_some_iff]
    dsimp only
    omega
  · rw [if_neg hlast, make?_eq_some_iff]
    dsimp only
    omega

/-! ### Reading -/

theorem length_le_encodeSize (s : List Char) : s.length ≤ Text.Utf8.encodeSize s := by
  induction s with
  | nil => simp
  | cons c s ih =>
    have hc := c.utf8Size_pos
    simp only [Text.Utf8.encodeSize, Text.Utf8.encode, List.flatMap_cons, List.length_append,
      String.length_utf8EncodeChar, List.length_cons] at ih ⊢
    omega

theorem width_le_length_padded (width n : Nat) : width ≤ (padded width n).length := by
  rw [padded, List.length_append, List.length_replicate]
  omega

theorem le_length_toChars (d : Date) : 10 ≤ d.toChars.length := by
  have hmonth := width_le_length_padded 2 d.month
  have hday := width_le_length_padded 2 d.day
  have hyear : 4 ≤ (yearText d.year).length := by
    rw [yearText]
    split
    · exact width_le_length_padded 4 _
    · exact Nat.le_trans (width_le_length_padded 4 _) (Nat.le_succ _)
  simp only [Date.toChars, List.length_append, List.length_cons, List.length_nil]
  omega

/-- A date and a time of day take up as much of a text as is wanted before it is read. -/
theorem le_encodeSize (d : Date) (separator : Char) (t : TimeOfDay) (rest : List Char) :
    19 ≤ Text.Utf8.encodeSize (d.toChars ++ separator :: (t.toChars ++ rest)) := by
  have hdate := le_length_toChars d
  have hhour := width_le_length_padded 2 t.hour
  have hminute := width_le_length_padded 2 t.minute
  have hsecond := width_le_length_padded 2 t.second
  refine Nat.le_trans ?_ (length_le_encodeSize _)
  simp only [TimeOfDay.toChars, List.length_append, List.length_cons]
  omega

theorem SpellsOffset.ends {offset : Int} {zone : List Char} (h : SpellsOffset offset zone) :
    EndsDigits zone ∧ zone.head? ≠ some '.' := by
  have hends {c : Char} (t : List Char) (hc : c ∈ ['Z', 'z', '+', '-', '\u2212']) :
      EndsDigits (c :: t) ∧ (c :: t).head? ≠ some '.' := by
    have hother : c.isDigit = false ∧ c ≠ '.' := by
      simp only [List.mem_cons, List.not_mem_nil, or_false] at hc
      rcases hc with rfl | rfl | rfl | rfl | rfl <;> decide
    constructor
    · intro x s hx
      cases hx
      exact hother.1
    · rw [List.head?_cons, Option.some_inj.ne]
      exact hother.2
  cases h with
  | utc hc => exact hends [] (by rcases hc with rfl | rfl <;> simp)
  | ahead => exact hends _ (by simp)
  | behind hc => exact hends _ (by rcases hc with rfl | rfl <;> simp)

theorem SpellsOffset.natAbs_lt {offset : Int} {zone : List Char} (h : SpellsOffset offset zone) :
    offset.natAbs < offsetLimit := by
  cases h with
  | utc => decide
  | ahead hn => exact hn
  | behind _ hn => rwa [Int.natAbs_neg]

theorem Spells.natAbs_lt {a : Instant} {offset : Int} {s : List Char} (h : Spells a offset s) :
    offset.natAbs < offsetLimit := by
  cases h with
  | mk _ _ _ _ hoffset => exact hoffset.natAbs_lt

theorem Spells.year_le {a : Instant} {offset : Int} {s : List Char} (h : Spells a offset s) :
    (a.shift offset).year ≤ 9999 := by
  cases h with
  | mk _ hhigh => exact hhigh

theorem read_spells {a : Instant} {offset : Int} {s : List Char} (h : Spells a offset s) :
    read s = .ok a := by
  cases h with
  | @mk separator fraction zone hlow hhigh hseparator hfraction hoffset =>
    obtain ⟨hends, hpoint⟩ := hoffset.ends
    have hvalid : (a.shift offset).civil.date.isValid = true := Date.isValid_ofDayNumber _
    have hdate := date_toChars hvalid hlow hhigh
    have htime : timeOfDay ((utcTime (a.shift offset)).toChars ++ (fraction ++ zone)) =
        .ok (utcTime (a.shift offset), zone) :=
      timeOfDay_toChars (utcTime_isValid _) hfraction hends hpoint
    have hzone := offsetMinutes_spells hoffset []
    rw [List.append_nil] at hzone
    have hinstant :
        instant (a.shift offset).civil.date (utcTime (a.shift offset)) offset = some a :=
      (instant_eq_some_iff hvalid (utcTime_isValid _) (Nat.mod_lt _ (by decide))).mpr ⟨rfl, rfl⟩
    have hsize : ¬Text.Utf8.encodeSize ((a.shift offset).civil.date.toChars ++
        separator :: ((utcTime (a.shift offset)).toChars ++ (fraction ++ zone))) < 19 :=
      Nat.not_lt.mpr (le_encodeSize _ _ _ _)
    have hlimit : ¬offsetLimit ≤ offset.natAbs := Nat.not_le.mpr hoffset.natAbs_lt
    simp only [read, if_neg hsize, bind, Except.bind, hdate, oneOf_cons hseparator, htime, hzone,
      ne_eq, not_true, if_false, if_neg hlimit, hinstant, pure, Except.pure]

theorem fractionNanos_lt {nanos : Nat} {fraction : List Char} (h : SpellsFraction nanos fraction) :
    nanos < 1000000000 := by
  cases h with
  | none => decide
  | @digits _ ds hne hd hnine =>
    obtain ⟨-, hlength⟩ := isDigit_firstNine hd
    rw [hnine, padded, List.length_append] at hlength
    exact (Nat.length_toDigits_le_iff (k := 9) (by decide) (by decide)).mp
      (Nat.le_trans (Nat.le_add_left _ _) (Nat.le_of_eq hlength))

theorem spells_of_read {a : Instant} {s : List Char} (h : read s = .ok a) :
    ∃ offset, Spells a offset s := by
  rw [read] at h
  split at h
  · cases h
  · simp only [bind_eq_ok, Prod.exists] at h
    obtain ⟨d, _, hdate, _, hseparator, t, _, htime, offset, zone, hoffset, h⟩ := h
    obtain ⟨rfl, hvalid, hlow, hhigh⟩ := eq_toChars_of_date hdate
    obtain ⟨separator, hmem, rfl⟩ := exists_oneOf hseparator
    obtain ⟨ht, fraction, hfraction, rfl⟩ := exists_timeOfDay htime
    split at h
    · cases h
    · next hzone =>
      split at h
      · cases h
      · next hlimit =>
        split at h
        · next hinstant =>
          cases h
          obtain ⟨zone', hzone', rfl⟩ := exists_offset hoffset (Nat.not_le.mp hlimit)
          obtain rfl : zone = [] := Classical.not_not.mp hzone
          obtain ⟨rfl, rfl⟩ :=
            (instant_eq_some_iff hvalid ht (fractionNanos_lt hfraction)).mp hinstant
          rw [List.append_nil]
          exact ⟨offset, .mk hlow hhigh hmem hfraction hzone'⟩
        · cases h

/-- A text is read as an instant exactly if it is one of its texts by some clock. -/
theorem read_eq_ok_iff {a : Instant} {s : List Char} :
    read s = .ok a ↔ ∃ offset, Spells a offset s :=
  ⟨spells_of_read, fun ⟨_, h⟩ => read_spells h⟩

end Rfc3339

end LeaseKeeper
