/-
Whole numbers as text, with or without a sign.

`SpellsInteger` says which texts a whole number has: at least one digit, after leading zeros or not,
and before them a sign or none.

* `boundedNumber_eq_ok_iff` — digits are read as their number if that keeps to the limit;
* `signedNumber_eq_ok_iff` — the texts of a number of 64 bits are those that are read as it;
* `SpellsInteger.pos_iff` — how a text tells whether its number is positive.

Design notes: the limit is checked after each digit.  That this comes to the same as checking it at
the end is `le_ofDigitChars`: the number never gets smaller.
-/
import LeaseKeeper.Proofs.Except
import LeaseKeeper.Proofs.Text.Numerals
import LeaseKeeper.Text.SignedNumber

namespace LeaseKeeper.Text

/-- At least one decimal digit, and the number that the digits stand for. -/
structure SpellsNatural (s : List Char) (n : Nat) : Prop where
  ne_nil : s ≠ []
  digits : ∀ c ∈ s, c.isDigit = true
  value : Nat.ofDigitChars 10 s 0 = n

/-- The texts of a whole number. -/
inductive SpellsInteger : List Char → Int → Prop
  | bare {s : List Char} {n : Nat} : SpellsNatural s n → SpellsInteger s n
  | plus {s : List Char} {n : Nat} : SpellsNatural s n → SpellsInteger ('+' :: s) n
  | minus {s : List Char} {n : Nat} : SpellsNatural s n → SpellsInteger ('-' :: s) (-(n : Int))

variable {s : List Char} {c : Char} {n m limit : Nat} {k : Int} {beyond : NumberFault}

/-! ### Reading -/

theorem boundedNumber_eq_ok_iff (hn : n ≤ limit) : boundedNumber limit beyond s n = .ok m ↔
    (∀ c ∈ s, c.isDigit = true) ∧ Nat.ofDigitChars 10 s n = m ∧ m ≤ limit := by
  induction s generalizing n with
  | nil =>
    rw [boundedNumber, Except.ok.injEq, Nat.ofDigitChars_nil]
    constructor
    · rintro rfl
      exact ⟨List.forall_mem_nil _, rfl, hn⟩
    · intro h
      exact h.2.1
  | cons c s ih =>
    rw [boundedNumber, Nat.ofDigitChars_cons]
    constructor
    · intro h
      split at h
      · cases h
      · next d hd =>
        obtain ⟨hc, rfl⟩ := isDigit_of_digit? hd
        split at h
        · next hle =>
          obtain ⟨hs, hm⟩ := (ih hle).mp h
          exact ⟨List.forall_mem_cons.mpr ⟨hc, hs⟩, hm⟩
        · cases h
    · rintro ⟨hdigits, hm, hle⟩
      obtain ⟨hc, hs⟩ := List.forall_mem_cons.mp hdigits
      have hstep : 10 * n + (c.toNat - '0'.toNat) ≤ limit := by
        have hgrows := le_ofDigitChars s (10 * n + (c.toNat - '0'.toNat))
        omega
      rw [digit?_of_isDigit hc]
      show (if 10 * n + (c.toNat - '0'.toNat) ≤ limit then _ else _) = _
      rw [if_pos hstep]
      exact (ih hstep).mpr ⟨hs, hm, hle⟩

/-- Digits are read as a number made of theirs. -/
theorem map_boundedNumber_eq_ok_iff (f : Nat → Int) (hne : s ≠ []) :
    (boundedNumber limit beyond s 0).map f = .ok k ↔
      ∃ n : Nat, (SpellsNatural s n ∧ k = f n) ∧ n ≤ limit := by
  rw [map_eq_ok]
  constructor
  · rintro ⟨n, hn, rfl⟩
    obtain ⟨hdigits, hvalue, hle⟩ := (boundedNumber_eq_ok_iff (Nat.zero_le limit)).mp hn
    exact ⟨n, ⟨⟨hne, hdigits, hvalue⟩, rfl⟩, hle⟩
  · rintro ⟨n, ⟨h, rfl⟩, hle⟩
    exact ⟨n, (boundedNumber_eq_ok_iff (Nat.zero_le limit)).mpr ⟨h.digits, h.value, hle⟩, rfl⟩

/-- A text of digits has no sign. -/
theorem SpellsNatural.notMem (h : SpellsNatural s n) (hc : c.isDigit = false) : c ∉ s := by
  intro hmem
  rw [h.digits c hmem] at hc
  cases hc

theorem spellsInteger_plus_iff :
    SpellsInteger ('+' :: s) k ↔ ∃ n : Nat, SpellsNatural s n ∧ k = n := by
  constructor
  · intro h
    cases h with
    | bare h => exact absurd List.mem_cons_self (h.notMem (c := '+') rfl)
    | plus h => exact ⟨_, h, rfl⟩
  · rintro ⟨n, h, rfl⟩
    exact .plus h

theorem spellsInteger_minus_iff :
    SpellsInteger ('-' :: s) k ↔ ∃ n : Nat, SpellsNatural s n ∧ k = -n := by
  constructor
  · intro h
    cases h with
    | bare h => exact absurd List.mem_cons_self (h.notMem (c := '-') rfl)
    | minus h => exact ⟨_, h, rfl⟩
  · rintro ⟨n, h, rfl⟩
    exact .minus h

theorem spellsInteger_bare_iff (hplus : s.head? ≠ some '+') (hminus : s.head? ≠ some '-') :
    SpellsInteger s k ↔ ∃ n : Nat, SpellsNatural s n ∧ k = n := by
  constructor
  · intro h
    cases h with
    | bare h => exact ⟨_, h, rfl⟩
    | plus h => exact absurd rfl hplus
    | minus h => exact absurd rfl hminus
  · rintro ⟨n, h, rfl⟩
    exact .bare h

/-- A numeral of as few digits as possible is a text of its number only. -/
theorem spellsInteger_decimal_iff : SpellsInteger (decimal n) k ↔ k = n := by
  have hdigits : ∀ c ∈ decimal n, c.isDigit = true := fun c => mem_decimal_isDigit
  have hvalue : Nat.ofDigitChars 10 (decimal n) 0 = n := Nat.ofDigitChars_ten_toDigits
  have hfirst {c : Char} (hc : c.isDigit = false) : (decimal n).head? ≠ some c := by
    intro hhead
    rw [hdigits c (List.mem_of_head? hhead)] at hc
    cases hc
  rw [spellsInteger_bare_iff (hfirst rfl) (hfirst rfl)]
  constructor
  · rintro ⟨m, hm, rfl⟩
    rw [← hm.value, hvalue]
  · rintro rfl
    exact ⟨n, ⟨Nat.toDigits_ne_nil, hdigits, hvalue⟩, rfl⟩

/-- The texts of a number of 64 bits are those that are read as it. -/
theorem signedNumber_eq_ok_iff : signedNumber s = .ok k ↔
    SpellsInteger s k ∧ -0x8000000000000000 ≤ k ∧ k ≤ 0x7FFFFFFFFFFFFFFF := by
  have hempty {n : Nat} (h : SpellsNatural [] n) : False := h.ne_nil rfl
  unfold signedNumber
  split
  · rw [spellsInteger_bare_iff (by simp) (by simp)]
    exact iff_of_false nofun fun ⟨⟨n, h, _⟩, _⟩ => hempty h
  · rw [spellsInteger_plus_iff]
    exact iff_of_false nofun fun ⟨⟨n, h, _⟩, _⟩ => hempty h
  · rw [spellsInteger_minus_iff]
    exact iff_of_false nofun fun ⟨⟨n, h, _⟩, _⟩ => hempty h
  · next s hne =>
    rw [spellsInteger_plus_iff, map_boundedNumber_eq_ok_iff Int.ofNat hne, ← exists_and_right]
    refine exists_congr fun n => and_congr_right fun h => ?_
    have hk : k = n := h.2
    omega
  · next s hne =>
    rw [spellsInteger_minus_iff, map_boundedNumber_eq_ok_iff _ hne, ← exists_and_right]
    refine exists_congr fun n => and_congr_right fun h => ?_
    have hk : k = -n := h.2
    omega
  · next hne _ _ hplus hminus =>
    have hfirst {c : Char} (hc : s.head? = some c) : ∃ t, s = c :: t :=
      List.head?_eq_some_iff.mp hc
    rw [spellsInteger_bare_iff (fun h => (hfirst h).elim hplus) (fun h => (hfirst h).elim hminus),
      map_boundedNumber_eq_ok_iff Int.ofNat hne, ← exists_and_right]
    refine exists_congr fun n => and_congr_right fun h => ?_
    have hk : k = n := h.2
    omega

/-! ### Positive numbers -/

theorem ofDigitChars_eq_zero_iff (h : ∀ c ∈ s, c.isDigit = true) :
    Nat.ofDigitChars 10 s n = 0 ↔ n = 0 ∧ ∀ c ∈ s, c = '0' := by
  induction s generalizing n with
  | nil =>
    rw [Nat.ofDigitChars_nil]
    exact ⟨fun hn => ⟨hn, nofun⟩, And.left⟩
  | cons c s ih =>
    obtain ⟨hc, hs⟩ := List.forall_mem_cons.mp h
    have hrange := toNat_isDigit hc
    have hzero : '0'.toNat = 48 := rfl
    have hdigit : c = '0' ↔ c.toNat = 48 := Char.toNat_inj.symm
    rw [Nat.ofDigitChars_cons, ih hs, List.forall_mem_cons, hdigit, ← and_assoc]
    refine and_congr_left fun _ => ?_
    omega

theorem SpellsNatural.pos_iff (h : SpellsNatural s n) : 0 < n ↔ ∃ c ∈ s, c ≠ '0' := by
  have hzero := ofDigitChars_eq_zero_iff (n := 0) h.digits
  rw [h.value, eq_self_iff_true, true_and] at hzero
  rw [Nat.pos_iff_ne_zero, Ne, hzero, Classical.not_forall]
  exact exists_congr fun c => Classical.not_imp

/-- A text stands for a positive number if it has no minus sign and a digit that is not zero. -/
theorem SpellsInteger.pos_iff (h : SpellsInteger s k) :
    0 < k ↔ '-' ∉ s ∧ ∃ c ∈ s, c.isDigit = true ∧ c ≠ '0' := by
  have hnatural {s : List Char} {n : Nat} (h : SpellsNatural s n) :
      0 < n ↔ '-' ∉ s ∧ ∃ c ∈ s, c.isDigit = true ∧ c ≠ '0' := by
    rw [h.pos_iff]
    constructor
    · rintro ⟨c, hc, hne⟩
      exact ⟨h.notMem rfl, c, hc, h.digits c hc, hne⟩
    · rintro ⟨-, c, hc, -, hne⟩
      exact ⟨c, hc, hne⟩
  cases h with
  | bare h =>
    rw [Int.natCast_pos]
    exact hnatural h
  | plus h =>
    rw [Int.natCast_pos, hnatural h, List.mem_cons]
    simp
  | minus h =>
    refine iff_of_false (by omega) fun hpos => hpos.1 List.mem_cons_self

end LeaseKeeper.Text
