/-
The content of a string literal, part by part.

* `content_plain`, `content_append` — bytes that stand for themselves;
* `content_escape`, `content_quote` — an escape, and the end of the literal;
* `isPlain_of_mem_encodeChar` — the bytes of a character that needs no escape stand for themselves.
-/
import LeaseKeeper.Json.StringScan
import LeaseKeeper.Json.Value
import LeaseKeeper.Proofs.Text.Utf8

namespace LeaseKeeper.Json

open Text.Utf8 (encode)

theorem encode_cons_ascii {c : Char} (h : c.toNat < 0x80) (s : List Char) :
    encode (c :: s) = byte c :: encode s := by
  rw [Text.Utf8.encode_cons, Text.Utf8.encodeChar_ascii h]
  rfl

theorem encode_ascii {s : List Char} (h : ∀ c ∈ s, c.toNat < 0x80) : encode s = s.map byte := by
  induction s with
  | nil => rfl
  | cons c s ih =>
    rw [encode_cons_ascii (h c List.mem_cons_self), ih fun d hd => h d (List.mem_cons_of_mem c hd),
      List.map_cons]

/-- Whether a byte of a string literal stands for itself. -/
def isPlain (b : UInt8) : Bool := b != byte '"' && b != byte '\\' && 0x20 ≤ b

theorem content_plain {care : Care} {b : UInt8} (hb : isPlain b = true) (s : List UInt8) :
    content care (b :: s) = (content care s).map fun (bytes, rest) => (b :: bytes, rest) := by
  simp only [isPlain, Bool.and_eq_true, bne_iff_ne, decide_eq_true_eq] at hb
  obtain ⟨⟨hquote, hslash⟩, hlow⟩ := hb
  rw [content, if_neg hquote, if_neg hslash, if_neg (by simpa using hlow)]

theorem content_append {care : Care} {bs : List UInt8} (hbs : ∀ b ∈ bs, isPlain b = true)
    (s : List UInt8) :
    content care (bs ++ s) = (content care s).map fun (bytes, rest) => (bs ++ bytes, rest) := by
  induction bs with
  | nil =>
    rw [List.nil_append]
    cases content care s <;> rfl
  | cons b bs ih =>
    rw [List.cons_append, content_plain (hbs b List.mem_cons_self),
      ih fun c hc => hbs c (List.mem_cons_of_mem b hc)]
    cases content care s <;> rfl

theorem content_escape {care : Care} {s rest bytes : List UInt8}
    (h : escape care s = .ok (bytes, rest)) :
    content care (byte '\\' :: s) =
      (content care rest).map fun (more, after) => (bytes ++ more, after) := by
  rw [content, if_neg (by decide), if_pos rfl]
  split
  · next e he =>
    rw [he] at h
    cases h
  · next front after he =>
    rw [he] at h
    cases h
    rfl

theorem content_quote {care : Care} (s : List UInt8) :
    content care (byte '"' :: s) = .ok ([], s) := by
  rw [content, if_pos rfl]

/-- The bytes of a character that is not escaped stand for themselves. -/
theorem isPlain_of_mem_encodeChar {c : Char} (hquote : c ≠ '"') (hslash : c ≠ '\\')
    (hcontrol : ¬c.toNat < 0x20) {b : UInt8} (hb : b ∈ String.utf8EncodeChar c) :
    isPlain b = true := by
  have hne {d : Char} (h : c ≠ d) : c.toNat ≠ d.toNat := fun heq => h (Char.toNat_inj.mp heq)
  simp only [isPlain, Bool.and_eq_true, bne_iff_ne, decide_eq_true_eq, UInt8.le_iff_toNat_le, ne_eq,
    ← UInt8.toNat_inj]
  -- Outside ASCII all bytes are greater than a quote, a backslash and the control characters.
  by_cases hascii : c.toNat < 0x80
  · rw [Text.Utf8.encodeChar_ascii hascii, List.mem_singleton] at hb
    have hbyte : b.toNat = c.toNat := by
      rw [hb, UInt8.toNat_ofNat']
      omega
    rw [hbyte]
    exact ⟨⟨hne hquote, hne hslash⟩, Nat.le_of_not_lt hcontrol⟩
  · have hle := Text.Utf8.le_of_mem_encodeChar (Nat.le_of_not_lt hascii) hb
    have hbytes : (byte '"').toNat = 34 ∧ (byte '\\').toNat = 92 ∧ (32 : UInt8).toNat = 32 := by
      decide
    omega

end LeaseKeeper.Json
