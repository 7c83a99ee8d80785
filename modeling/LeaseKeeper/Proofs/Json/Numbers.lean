/-
The digits of number literals.

* `EndsNumber`, `EndsDigits` — where a number, or a run of digits, is over;
* `takeWhile_isDigit_map`, `wholeDigits_decimal` — digits are read to their end;
* `appendDigits_decimal` — the digits of a number below 2^64 are all taken in.
-/
import LeaseKeeper.Json.NumberScan
import LeaseKeeper.Proofs.Json.Strings
import LeaseKeeper.Proofs.Text.Numerals

namespace LeaseKeeper.Json

open Text (decimal)
open Text.Utf8 (encode)

/-- A text that does not go on with anything that belongs to a number. -/
def EndsNumber (s : List UInt8) : Prop :=
  ∀ b t, s = b :: t → isDigit b = false ∧ b ≠ byte '.' ∧ b ≠ byte 'e' ∧ b ≠ byte 'E'

/-- A text that does not go on with a digit. -/
def EndsDigits (s : List UInt8) : Prop := ∀ b t, s = b :: t → isDigit b = false

theorem EndsNumber.endsDigits {s : List UInt8} (h : EndsNumber s) : EndsDigits s :=
  fun b t hs => (h b t hs).1

/-! ### Digits -/

theorem toNat_byte_digit {c : Char} (h : c.isDigit = true) : (byte c).toNat = c.toNat := by
  have := Text.toNat_isDigit h
  rw [byte, UInt8.toNat_ofNat']
  omega

theorem isDigit_byte {c : Char} (h : c.isDigit = true) : isDigit (byte c) = true := by
  have hc := Text.toNat_isDigit h
  have hb := toNat_byte_digit h
  simp only [isDigit, Bool.and_eq_true, decide_eq_true_eq, UInt8.le_iff_toNat_le, hb]
  exact hc

theorem ne_of_isDigit {b : UInt8} {c : Char} (h : isDigit b = true)
    (hc : isDigit (byte c) = false) : b ≠ byte c := by
  rintro rfl
  rw [hc] at h
  cases h

theorem isSpace_of_isDigit {b : UInt8} (h : isDigit b = true) : isSpace b = false := by
  simp only [isSpace, Bool.or_eq_false_iff, beq_eq_false_iff_ne]
  exact ⟨⟨⟨ne_of_isDigit h (by decide), ne_of_isDigit h (by decide)⟩,
    ne_of_isDigit h (by decide)⟩, ne_of_isDigit h (by decide)⟩

theorem digitValue_byte {c : Char} (h : c.isDigit = true) :
    digitValue (byte c) = c.toNat - '0'.toNat := by
  rw [digitValue, toNat_byte_digit h]

theorem encode_decimal (n : Nat) : encode (decimal n) = (decimal n).map byte := by
  refine encode_ascii fun c hc => ?_
  have := Text.toNat_isDigit (Text.mem_decimal_isDigit hc)
  omega

theorem decimal_eq_cons (n : Nat) : ∃ c cs, decimal n = c :: cs ∧ c.isDigit = true := by
  cases h : decimal n with
  | nil => exact absurd h Nat.toDigits_ne_nil
  | cons c cs =>
    exact ⟨c, cs, rfl, Text.mem_decimal_isDigit (n := n) (h ▸ List.mem_cons_self)⟩

/-- Digits of a number that fits into 64 bits are all taken in. -/
theorem appendDigits_map {cs : List Char} (hcs : ∀ c ∈ cs, c.isDigit = true) {n : Nat}
    (h : Nat.ofDigitChars 10 cs n < 0x10000000000000000) :
    appendDigits n (cs.map byte) = (Nat.ofDigitChars 10 cs n, cs.length) := by
  induction cs generalizing n with
  | nil => rfl
  | cons c cs ih =>
    have hc := digitValue_byte (hcs c List.mem_cons_self)
    rw [Nat.ofDigitChars_cons] at h ⊢
    -- A digit is taken in while the number stays in 64 bits, and the number only grows.
    have hle := Text.le_ofDigitChars cs (10 * n + (c.toNat - '0'.toNat))
    rw [List.map_cons, appendDigits, hc, if_pos (by omega),
      ih (fun d hd => hcs d (List.mem_cons_of_mem c hd)) h]
    rfl

/-! ### Literals -/

theorem takeWhile_isDigit_map {cs : List Char} (hcs : ∀ c ∈ cs, c.isDigit = true)
    {s : List UInt8} (hs : EndsDigits s) :
    (cs.map byte ++ s).takeWhile isDigit = cs.map byte ∧
      (cs.map byte ++ s).dropWhile isDigit = s := by
  have hd : ∀ b ∈ cs.map byte, isDigit b = true := by
    intro b hb
    obtain ⟨c, hc, rfl⟩ := List.mem_map.mp hb
    exact isDigit_byte (hcs c hc)
  rw [List.takeWhile_append_of_pos hd, List.dropWhile_append_of_pos hd]
  cases s with
  | nil => simp
  | cons b t =>
    have hb := hs b t rfl
    simp [hb]

theorem wholeDigits_decimal (atEnd : Fault) (n : Nat) {s : List UInt8} (hs : EndsDigits s) :
    wholeDigits atEnd ((decimal n).map byte ++ s) = .ok ((decimal n).map byte, s) := by
  -- Zero is the one numeral with a zero at its front, which is read alone.
  by_cases h0 : 0 < n
  · obtain ⟨c, cs, hc, hne⟩ := Text.decimal_head h0
    have hdigits : ∀ d ∈ c :: cs, d.isDigit = true := by
      intro d hd
      exact Text.mem_decimal_isDigit (n := n) (hc ▸ hd)
    have hcdigit := hdigits c List.mem_cons_self
    have hbyte : byte c ≠ byte '0' := by
      intro h
      have h' := congrArg UInt8.toNat h
      rw [toNat_byte_digit hcdigit] at h'
      exact hne (Char.toNat_inj.mp h')
    obtain ⟨htake, hdrop⟩ :=
      takeWhile_isDigit_map (fun d hd => hdigits d (List.mem_cons_of_mem c hd)) hs
    rw [hc, List.map_cons, List.cons_append]
    simp only [wholeDigits]
    rw [if_neg hbyte, if_pos (isDigit_byte hcdigit), htake, hdrop]
  · obtain rfl : n = 0 := by omega
    rw [decimal, Nat.toDigits_zero, List.map_singleton, List.singleton_append]
    simp only [wholeDigits, if_true]
    cases s with
    | nil => rfl
    | cons b t =>
      have hb := hs b t rfl
      simp [hb]

theorem appendDigits_decimal {n : Nat} (h : n < 0x10000000000000000) :
    appendDigits 0 ((decimal n).map byte) = (n, (decimal n).length) := by
  have hval : Nat.ofDigitChars 10 (decimal n) 0 = n := Nat.ofDigitChars_ten_toDigits
  rw [appendDigits_map (fun c hc => Text.mem_decimal_isDigit hc) (by rw [hval]; exact h), hval]

end LeaseKeeper.Json
