/-
Numerals in decimal digits.

* `padded_length`, `mem_padded_isDigit`, `ofDigitChars_padded` — a number in a field of fixed
  width: how wide it is, what it is made of, and what it stands for;
* `padded_ofDigitChars` — any digits are what is written in a field as wide as they are many;
* `decimal_head`, `eq_decimal_of_number?` — the numerals of as few digits as possible are those that
  begin with a zero only if they are one.
-/
import LeaseKeeper.Text.Digits
import Mathlib.Algebra.Group.Nat.Defs

namespace LeaseKeeper.Text

theorem mem_decimal_isDigit {n : Nat} {c : Char} (h : c ∈ decimal n) : c.isDigit = true :=
  Nat.isDigit_of_mem_toDigits (by decide) (by decide) h

theorem toNat_isDigit {c : Char} (h : c.isDigit = true) : 48 ≤ c.toNat ∧ c.toNat ≤ 57 := by
  simp only [Char.isDigit, Bool.and_eq_true, decide_eq_true_eq, UInt32.le_iff_toNat_le] at h
  exact h

theorem digit?_of_isDigit {c : Char} (h : c.isDigit = true) :
    digit? c = some (c.toNat - '0'.toNat) := by
  rw [digit?, if_pos]
  simp only [Char.isDigit, Bool.and_eq_true, decide_eq_true_eq] at h
  exact h

theorem le_ofDigitChars (cs : List Char) (n : Nat) : n ≤ Nat.ofDigitChars 10 cs n := by
  rw [Nat.ofDigitChars_eq_ofDigitChars_zero]
  have := Nat.le_mul_of_pos_left n (Nat.pow_pos (n := cs.length) (show 0 < 10 by decide))
  omega

/-! ### Fields of fixed width -/

theorem length_decimal_le {n width : Nat} (hw : 0 < width) (h : n < 10 ^ width) :
    (decimal n).length ≤ width :=
  (Nat.length_toDigits_le_iff (by decide) hw).mpr h

theorem padded_length {n width : Nat} (hw : 0 < width) (h : n < 10 ^ width) :
    (padded width n).length = width := by
  have := length_decimal_le hw h
  rw [padded, List.length_append, List.length_replicate]
  omega

theorem mem_padded_isDigit {n width : Nat} {c : Char} (h : c ∈ padded width n) :
    c.isDigit = true := by
  rw [padded, List.mem_append] at h
  rcases h with h | h
  · rw [List.eq_of_mem_replicate h]
    rfl
  · exact mem_decimal_isDigit h

theorem ofDigitChars_padded (width n : Nat) : Nat.ofDigitChars 10 (padded width n) 0 = n := by
  rw [padded, Nat.ofDigitChars_append, Nat.ofDigitChars_replicate_zero, Nat.mul_zero, decimal,
    Nat.ofDigitChars_ten_toDigits]

/-! ### Numerals of as few digits as possible -/

theorem decimal_head {n : Nat} (h : 0 < n) : ∃ c s, decimal n = c :: s ∧ c ≠ '0' := by
  -- The first digit is that of the number without its last digit.
  induction n using Nat.strongRecOn with
  | ind n ih =>
    by_cases hn : n < 10
    · refine ⟨n.digitChar, [], Nat.toDigits_of_lt_base hn, ?_⟩
      rw [Ne, Nat.digitChar_eq_zero]
      omega
    · obtain ⟨c, s, hc, hne⟩ := ih (n / 10) (by omega) (by omega)
      refine ⟨c, s ++ [(n % 10).digitChar], ?_, hne⟩
      rw [decimal, Nat.toDigits_of_base_le (by decide) (by omega)]
      rw [decimal] at hc
      rw [hc, List.cons_append]

theorem decimal_of_isDigit {c : Char} (h : c.isDigit = true) :
    decimal (c.toNat - '0'.toNat) = [c] := by
  have hc := toNat_isDigit h
  have hzero : '0'.toNat = 48 := rfl
  have hlt : c.toNat - '0'.toNat < 10 := by omega
  have hdigit := Nat.toNat_digitChar_of_lt_ten hlt
  rw [decimal, Nat.toDigits_of_lt_base hlt]
  exact congrArg (fun c => [c]) (Char.toNat_inj.mp (by omega))

/-- Digits after a numeral make a longer one, unless it is that of zero. -/
theorem decimal_append {n : Nat} (hn : 0 < n) {cs : List Char} (hcs : ∀ c ∈ cs, c.isDigit = true) :
    decimal n ++ cs = decimal (Nat.ofDigitChars 10 cs n) := by
  induction cs generalizing n with
  | nil => exact List.append_nil _
  | cons c cs ih =>
    have hc := hcs c List.mem_cons_self
    have hrange := toNat_isDigit hc
    have hlt : c.toNat - '0'.toNat < 10 := by
      have hzero : '0'.toNat = 48 := rfl
      omega
    have hstep : decimal n ++ [c] = decimal (10 * n + (c.toNat - '0'.toNat)) := by
      rw [← decimal_of_isDigit hc]
      exact Nat.toDigits_append_toDigits (by decide) hn hlt
    rw [Nat.ofDigitChars_cons, List.append_cons, hstep]
    exact ih (by omega) fun d hd => hcs d (List.mem_cons_of_mem c hd)

/-- Digits that do not begin with a zero are a numeral. -/
theorem decimal_ofDigitChars {c : Char} {cs : List Char} (h : ∀ d ∈ c :: cs, d.isDigit = true)
    (hc : c ≠ '0') : decimal (Nat.ofDigitChars 10 (c :: cs) 0) = c :: cs := by
  have hdigit := h c List.mem_cons_self
  have hpos : 0 < c.toNat - '0'.toNat := by
    have hrange := toNat_isDigit hdigit
    have hne : c.toNat ≠ '0'.toNat := fun heq => hc (Char.toNat_inj.mp heq)
    have hzero : '0'.toNat = 48 := rfl
    omega
  rw [Nat.ofDigitChars_cons, Nat.mul_zero, Nat.zero_add,
    ← decimal_append hpos fun d hd => h d (List.mem_cons_of_mem c hd), decimal_of_isDigit hdigit]
  rfl

/-- A number that is read from digits has them as its numeral, if there are none too many. -/
theorem eq_decimal_of_number? {s : List Char} {n : Nat} (h : number? s = some n)
    (hzero : s.head? = some '0' → s = ['0']) : s = decimal n := by
  rw [number?] at h
  split at h
  · next hdigits =>
    cases h
    cases s with
    | nil => exact absurd rfl hdigits.1
    | cons c cs =>
      by_cases hc : c = '0'
      · have hone : c :: cs = ['0'] := hzero (congrArg some hc)
        rw [hone]
        rfl
      · exact (decimal_ofDigitChars (List.all_eq_true.mp hdigits.2) hc).symm
  · cases h

/-! ### Digits as a field of their width -/

theorem isDigit_of_digit? {c : Char} {n : Nat} (h : digit? c = some n) :
    c.isDigit = true ∧ n = c.toNat - '0'.toNat := by
  rw [digit?] at h
  split at h
  · next hc =>
    refine ⟨?_, (Option.some.inj h).symm⟩
    simp only [Char.isDigit, Bool.and_eq_true, decide_eq_true_eq]
    exact hc
  · cases h

theorem padded_succ {width n : Nat} (h : (decimal n).length ≤ width) :
    padded (width + 1) n = '0' :: padded width n := by
  rw [padded, padded, Nat.succ_sub h, List.replicate_succ, List.cons_append]

/-- Digits are what is written for their number in a field that is as wide as they are many. -/
theorem padded_ofDigitChars {ds : List Char} (hne : ds ≠ []) (h : ∀ c ∈ ds, c.isDigit = true) :
    padded ds.length (Nat.ofDigitChars 10 ds 0) = ds := by
  induction ds with
  | nil => exact absurd rfl hne
  | cons c ds ih =>
    by_cases hc : c = '0'
    · subst hc
      rw [Nat.ofDigitChars_cons]
      show padded (ds.length + 1) (Nat.ofDigitChars 10 ds 0) = '0' :: ds
      cases hds : ds with
      | nil => rfl
      | cons d rest =>
        rw [← hds]
        have hrest := ih (hds ▸ List.cons_ne_nil d rest) fun x hx => h x (List.mem_cons_of_mem _ hx)
        have hlength := congrArg List.length hrest
        rw [padded, List.length_append, List.length_replicate] at hlength
        rw [padded_succ (by omega), hrest]
    · have hdecimal := decimal_ofDigitChars h hc
      rw [padded, hdecimal, Nat.sub_self]
      rfl

end LeaseKeeper.Text
