/-
Hexadecimal digits, and letters in either case.

* `toLower_cases` — what relates every character to itself, and every capital letter to its small
  letter, relates every character to its small letter;
* `hexDigit?_toLower`, `isBlank_toLower`, `toLower_eq_iff` — what does not depend on the case;
* `hexDigit?_eq_some_iff` — the digits that stand for a number are the one that is written for it,
  and its capital letter;
* `exists_hexDigit?` — which characters are digits;
* `forall_mem_hexPair`, `ofNat_halves` — what is written for a byte, and that it reads back.
-/
import LeaseKeeper.Text.Blank
import LeaseKeeper.Text.Digits

namespace LeaseKeeper.Text

variable {c d : Char} {n : Nat}

/-! ### Letters -/

theorem toLower_cases {p : Char → Char → Prop} (hsame : ∀ c, p c c)
    (hletter : ∀ k : Fin 26, p (Char.ofNat (65 + k)) (Char.ofNat (97 + k))) (c : Char) :
    p c c.toLower := by
  have hcapital : ∀ k : Fin 26, (Char.ofNat (65 + k)).toLower = Char.ofNat (97 + k) := by decide
  by_cases h : c.val ≥ 'A'.val ∧ c.val ≤ 'Z'.val
  · have hlow : 65 ≤ c.toNat := h.1
    have hhigh : c.toNat ≤ 90 := h.2
    obtain ⟨k, rfl⟩ : ∃ k : Fin 26, c = Char.ofNat (65 + k) := by
      refine ⟨⟨c.toNat - 65, by omega⟩, ?_⟩
      show c = Char.ofNat (65 + (c.toNat - 65))
      rw [Nat.add_sub_cancel' hlow, Char.ofNat_toNat]
    rw [hcapital]
    exact hletter k
  · have hkept : c.toLower = c := dif_neg h
    rw [hkept]
    exact hsame c

theorem hexDigit?_toLower (c : Char) : hexDigit? c.toLower = hexDigit? c :=
  toLower_cases (p := fun c d => hexDigit? d = hexDigit? c) (fun _ => rfl) (by decide) c

theorem isBlank_toLower (c : Char) : isBlank c.toLower = isBlank c :=
  toLower_cases (p := fun c d => isBlank d = isBlank c) (fun _ => rfl) (by decide) c

/-- Only a letter has more than one case. -/
theorem toLower_eq_iff (hd : d.isAlpha = false) : c.toLower = d ↔ c = d := by
  refine toLower_cases (p := fun c c' => c' = d ↔ c = d) (fun _ => Iff.rfl) (fun k => ?_) c
  have hcapital : ∀ k : Fin 26, (Char.ofNat (65 + k)).isAlpha = true := by decide
  have hsmall : ∀ k : Fin 26, (Char.ofNat (97 + k)).isAlpha = true := by decide
  refine iff_of_false ?_ ?_
  · rintro rfl
    rw [hsmall] at hd
    cases hd
  · rintro rfl
    rw [hcapital] at hd
    cases hd

/-! ### Digits -/

theorem lt_of_hexDigit? (h : hexDigit? c = some n) : c.toNat < 0x100 := by
  have hle {x : Char} (hx : c ≤ x) : c.toNat ≤ x.toNat := hx
  rw [hexDigit?] at h
  split at h
  · next hc => exact Nat.lt_of_le_of_lt (hle hc.2) (by decide)
  split at h
  · next hc => exact Nat.lt_of_le_of_lt (hle hc.2) (by decide)
  split at h
  · next hc => exact Nat.lt_of_le_of_lt (hle hc.2) (by decide)
  · cases h

theorem ne_of_hexDigit? (hc : hexDigit? c = some n) (hd : hexDigit? d = none) : c ≠ d := by
  rintro rfl
  rw [hd] at hc
  cases hc

theorem hexDigit?_eq_some_iff : hexDigit? c = some n ↔ n < 16 ∧ c.toLower = hexDigit n := by
  constructor
  · intro h
    have key : ∀ k : Fin 0x100, ∀ n ∈ hexDigit? (Char.ofNat k),
        n < 16 ∧ (Char.ofNat k).toLower = hexDigit n := by decide +kernel
    have hc := key ⟨c.toNat, lt_of_hexDigit? h⟩ n
    rw [Char.ofNat_toNat] at hc
    exact hc h
  · rintro ⟨hn, hc⟩
    rw [← hexDigit?_toLower, hc, hexDigit?_hexDigit hn]

/-- A decimal digit, or one of the first six letters in either case. -/
def IsHexDigit (c : Char) : Prop :=
  ('0' ≤ c ∧ c ≤ '9') ∨ ('a' ≤ c ∧ c ≤ 'f') ∨ ('A' ≤ c ∧ c ≤ 'F')

theorem exists_hexDigit? (h : IsHexDigit c) : ∃ n, hexDigit? c = some n := by
  rw [hexDigit?]
  split
  · exact ⟨_, rfl⟩
  · next hdigit =>
    have hletter := h.resolve_left hdigit
    split
    · exact ⟨_, rfl⟩
    · next hsmall => exact ⟨_, if_pos (hletter.resolve_left hsmall)⟩

/-- What holds of sixteen digits holds of the digits of a byte. -/
theorem forall_mem_hexPair {p : Char → Prop} (h : ∀ n : Fin 16, p (hexDigit n)) (b : UInt8) :
    ∀ c ∈ hexPair b, p c := by
  have hb := b.toNat_lt
  rw [hexPair]
  exact List.forall_mem_cons.mpr ⟨h ⟨b.toNat / 16, by omega⟩,
    List.forall_mem_singleton.mpr (h ⟨b.toNat % 16, by omega⟩)⟩

/-- A byte is made up of its two halves. -/
theorem ofNat_halves (b : UInt8) : UInt8.ofNat (16 * (b.toNat / 16) + b.toNat % 16) = b := by
  rw [Nat.div_add_mod, UInt8.ofNat_toNat]

end LeaseKeeper.Text
