/-
UTF-8 text reads back.

* `decode?_encode`, `decodeLossy_encode` — the bytes of a text are decoded to that text;
* `next_encodeChar` — the bytes of a character are read as that character, whatever follows.

Design notes: there is one lemma for each length of a character, first for its lead byte
(`lead?_one` to `lead?_four`) and then for the whole character (`next_one` to `next_four`).
-/
import LeaseKeeper.Text.Utf8

namespace LeaseKeeper.Text.Utf8

/-! ### Lead bytes -/

theorem lead?_one {n : Nat} (h : n < 0x80) :
    lead? (UInt8.ofNat n) = some ⟨n, 0, 0x80, 0xBF⟩ := by
  have hn : (UInt8.ofNat n).toNat = n := by
    rw [UInt8.toNat_ofNat']
    omega
  simp only [lead?, UInt8.lt_iff_toNat_lt, hn, UInt8.reduceToNat]
  rw [if_pos h]

theorem lead?_two {k : Nat} (hlow : 2 ≤ k) (hhigh : k < 0x20) :
    lead? (UInt8.ofNat (k + 0xC0)) = some ⟨k, 1, 0x80, 0xBF⟩ := by
  have hn : (UInt8.ofNat (k + 0xC0)).toNat = k + 0xC0 := by
    rw [UInt8.toNat_ofNat']
    omega
  simp only [lead?, UInt8.lt_iff_toNat_lt, hn, UInt8.reduceToNat]
  rw [if_neg (by omega), if_neg (by omega), if_pos (by omega), Nat.add_sub_cancel]

/-- Of three bytes, the lead leaves out what two bytes can hold, and the surrogates. -/
theorem lead?_three {k : Nat} (h : k < 0x10) :
    lead? (UInt8.ofNat (k + 0xE0)) =
      some ⟨k, 2, if k = 0 then 0xA0 else 0x80, if k = 0xD then 0x9F else 0xBF⟩ := by
  have hn : (UInt8.ofNat (k + 0xE0)).toNat = k + 0xE0 := by
    rw [UInt8.toNat_ofNat']
    omega
  simp only [lead?, UInt8.lt_iff_toNat_lt, beq_iff_eq, ← UInt8.toNat_inj, hn, UInt8.reduceToNat]
  rw [if_neg (by omega), if_neg (by omega), if_neg (by omega)]
  by_cases h0 : k = 0
  · subst h0
    rfl
  · by_cases hd : k = 0xD
    · subst hd
      rfl
    · rw [if_neg (by omega), if_neg (by omega), if_pos (by omega), if_neg h0, if_neg hd,
        Nat.add_sub_cancel]

/-- Of four bytes, the lead leaves out what three bytes can hold, and what lies above the last
code point. -/
theorem lead?_four {k : Nat} (h : k ≤ 4) :
    lead? (UInt8.ofNat (k + 0xF0)) =
      some ⟨k, 3, if k = 0 then 0x90 else 0x80, if k = 4 then 0x8F else 0xBF⟩ := by
  match k, h with
  | 0, _ | 1, _ | 2, _ | 3, _ | 4, _ => rfl

/-- A further byte adds six bits. -/
theorem tails_succ {n acc k : Nat} {low high : UInt8} {rest : List UInt8}
    (hlow : low.toNat ≤ k + 0x80) (hhigh : k + 0x80 ≤ high.toNat) :
    tails (n + 1) acc low high (UInt8.ofNat (k + 0x80) :: rest) =
      tails n (acc * 64 + k) 0x80 0xBF rest := by
  have := high.toNat_lt
  have hb : (UInt8.ofNat (k + 0x80)).toNat = k + 0x80 := by
    rw [UInt8.toNat_ofNat']
    omega
  rw [tails, if_pos]
  · rw [hb, Nat.add_sub_cancel]
  · simp only [UInt8.le_iff_toNat_le, hb]
    exact ⟨hlow, hhigh⟩

/-! ### Characters -/

theorem next_one {v : Nat} {rest : List UInt8} (h : v ≤ 0x7f) :
    next (UInt8.ofNat v) rest = (some (Char.ofNat v), rest) := by
  rw [next, lead?_one (by omega)]
  rfl

theorem next_two {v : Nat} {rest : List UInt8} (hlow : 0x7f < v) (hhigh : v ≤ 0x7ff) :
    next (UInt8.ofNat (v / 64 % 0x20 + 0xc0)) (UInt8.ofNat (v % 0x40 + 0x80) :: rest) =
      (some (Char.ofNat v), rest) := by
  have hcode : v / 64 % 0x20 * 64 + v % 0x40 = v := by omega
  rw [next, lead?_two (by omega) (by omega)]
  simp only
  rw [tails_succ]
  · simp only [tails, hcode, Option.map_some]
  · simp
  · simp only [UInt8.reduceToNat]
    omega

theorem next_three {v : Nat} {rest : List UInt8} (hlow : 0x7ff < v) (hhigh : v ≤ 0xffff)
    (hr : v < 0xD800 ∨ 0xDFFF < v) :
    next (UInt8.ofNat (v / 4096 % 0x10 + 0xe0))
        (UInt8.ofNat (v / 64 % 0x40 + 0x80) :: UInt8.ofNat (v % 0x40 + 0x80) :: rest) =
      (some (Char.ofNat v), rest) := by
  have hcode : (v / 4096 % 0x10 * 64 + v / 64 % 0x40) * 64 + v % 0x40 = v := by omega
  rw [next, lead?_three (by omega)]
  simp only
  rw [tails_succ, tails_succ]
  · simp only [tails, hcode, Option.map_some]
  · simp
  · simp only [UInt8.reduceToNat]
    omega
  · split <;> simp only [UInt8.reduceToNat] <;> omega
  · split <;> simp only [UInt8.reduceToNat] <;> omega

theorem next_four {v : Nat} {rest : List UInt8} (hlow : 0xffff < v) (hhigh : v < 0x110000) :
    next (UInt8.ofNat (v / 262144 % 0x08 + 0xf0))
        (UInt8.ofNat (v / 4096 % 0x40 + 0x80) :: UInt8.ofNat (v / 64 % 0x40 + 0x80) ::
          UInt8.ofNat (v % 0x40 + 0x80) :: rest) =
      (some (Char.ofNat v), rest) := by
  have hcode : ((v / 262144 % 0x08 * 64 + v / 4096 % 0x40) * 64 + v / 64 % 0x40) * 64
      + v % 0x40 = v := by omega
  rw [next, lead?_four (by omega)]
  simp only
  rw [tails_succ, tails_succ, tails_succ]
  · simp only [tails, hcode, Option.map_some]
  · simp
  · simp only [UInt8.reduceToNat]
    omega
  · simp
  · simp only [UInt8.reduceToNat]
    omega
  · split <;> simp only [UInt8.reduceToNat] <;> omega
  · split <;> simp only [UInt8.reduceToNat] <;> omega

theorem next_encodeChar (c : Char) (rest : List UInt8) :
    ∃ b s, String.utf8EncodeChar c ++ rest = b :: s ∧ next b s = (some c, rest) := by
  -- The cases are those of the encoding, by the number of bytes.
  have hc : Char.ofNat c.val.toNat = c := Char.ofNat_toNat c
  have hr : c.val.toNat < 0xD800 ∨ 0xDFFF < c.val.toNat ∧ c.val.toNat < 0x110000 := c.valid
  simp only [String.utf8EncodeChar]
  by_cases h1 : c.val.toNat ≤ 0x7f
  · rw [if_pos h1]
    exact ⟨_, _, rfl, (next_one h1).trans (by rw [hc]; rfl)⟩
  rw [if_neg h1]
  by_cases h2 : c.val.toNat ≤ 0x7ff
  · rw [if_pos h2]
    exact ⟨_, _, rfl, (next_two (by omega) h2).trans (by rw [hc]; rfl)⟩
  rw [if_neg h2]
  by_cases h3 : c.val.toNat ≤ 0xffff
  · rw [if_pos h3]
    exact ⟨_, _, rfl, (next_three (by omega) h3 (by omega)).trans (by rw [hc]; rfl)⟩
  · rw [if_neg h3]
    exact ⟨_, _, rfl, (next_four (by omega) (by omega)).trans (by rw [hc]; rfl)⟩

theorem encodeChar_ascii {c : Char} (h : c.toNat < 0x80) :
    String.utf8EncodeChar c = [UInt8.ofNat c.toNat] := by
  have hc : c.val.toNat ≤ 0x7f := Nat.le_of_lt_succ h
  simp only [String.utf8EncodeChar]
  exact if_pos hc

/-- No byte of a character outside ASCII is an ASCII character. -/
theorem le_of_mem_encodeChar {c : Char} (h : 0x80 ≤ c.toNat) {b : UInt8}
    (hb : b ∈ String.utf8EncodeChar c) : 0x80 ≤ b.toNat := by
  have hc : ¬c.val.toNat ≤ 0x7f := by
    rw [Char.toNat] at h
    omega
  have hr : c.val.toNat < 0x110000 := by
    have : c.val.toNat < 0xD800 ∨ 0xDFFF < c.val.toNat ∧ c.val.toNat < 0x110000 := c.valid
    omega
  simp only [String.utf8EncodeChar] at hb
  rw [if_neg hc] at hb
  split at hb
  · simp only [List.mem_cons, List.not_mem_nil, or_false] at hb
    rcases hb with rfl | rfl <;> rw [UInt8.toNat_ofNat'] <;> omega
  · split at hb
    · simp only [List.mem_cons, List.not_mem_nil, or_false] at hb
      rcases hb with rfl | rfl | rfl <;> rw [UInt8.toNat_ofNat'] <;> omega
    · simp only [List.mem_cons, List.not_mem_nil, or_false] at hb
      rcases hb with rfl | rfl | rfl | rfl <;> rw [UInt8.toNat_ofNat'] <;> omega

/-! ### Texts -/

theorem encode_append (s t : List Char) : encode (s ++ t) = encode s ++ encode t :=
  List.flatMap_append

theorem encode_cons (c : Char) (s : List Char) :
    encode (c :: s) = String.utf8EncodeChar c ++ encode s :=
  List.flatMap_cons

theorem decode?_encode (s : List Char) : decode? (encode s) = some s := by
  induction s with
  | nil => rw [encode, List.flatMap_nil, decode?]
  | cons c s ih =>
    obtain ⟨b, bytes, hb, hnext⟩ := next_encodeChar c (encode s)
    rw [encode_cons, hb, decode?, hnext]
    simp only [ih, Option.map_some]

theorem encode_injective : Function.Injective encode := by
  intro s t h
  have hread := congrArg decode? h
  rw [decode?_encode, decode?_encode] at hread
  exact Option.some.inj hread

theorem decodeLossy_encode (s : List Char) : decodeLossy (encode s) = s := by
  induction s with
  | nil => rw [encode, List.flatMap_nil, decodeLossy]
  | cons c s ih =>
    obtain ⟨b, bytes, hb, hnext⟩ := next_encodeChar c (encode s)
    rw [encode_cons, hb, decodeLossy, hnext, ih]
    rfl

end LeaseKeeper.Text.Utf8
