/-
IPv4 addresses read back.

* `ofText?_toChars` — an address reads back from its text;
* `ofText?_eq_some_iff` — and from no other;
* `ofOctets_octet` — an address is made up of its octets.
-/
import LeaseKeeper.Net.Ipv4
import LeaseKeeper.Proofs.Text.Fields
import LeaseKeeper.Proofs.Text.Numerals

namespace LeaseKeeper.Ipv4

theorem toNat_append_octet {w : Nat} (x : BitVec w) (b : UInt8) :
    (x ++ b.toBitVec).toNat = 256 * x.toNat + b.toNat := by
  rw [BitVec.toNat_append, ← Nat.shiftLeft_add_eq_or_of_lt b.toBitVec.isLt, Nat.shiftLeft_eq]
  have : b.toBitVec.toNat = b.toNat := rfl
  omega

theorem ofOctets_octet (a : Ipv4) :
    ofOctets (UInt8.ofNat (a.octet 3)) (UInt8.ofNat (a.octet 2)) (UInt8.ofNat (a.octet 1))
      (UInt8.ofNat (a.octet 0)) = a := by
  obtain ⟨bits⟩ := a
  have hbits := bits.isLt
  simp only [ofOctets, Ipv4.mk.injEq]
  apply BitVec.eq_of_toNat_eq
  rw [toNat_append_octet, toNat_append_octet, toNat_append_octet]
  simp only [octet, UInt8.toNat_toBitVec, UInt8.toNat_ofNat', Nat.shiftRight_eq_div_pow]
  omega

theorem octet?_decimal {n : Nat} (h : n ≤ 255) :
    octet? (Text.decimal n) = some (UInt8.ofNat n) := by
  have hlen : (Text.decimal n).length ≤ 3 :=
    Text.length_decimal_le (by decide) (show n < 10 ^ 3 by omega)
  rw [octet?, if_neg, Text.number?_decimal]
  · simp only [hlen, h, and_self, if_true]
  · rintro ⟨hhead, hne⟩
    by_cases h0 : 0 < n
    · obtain ⟨c, s, hs, hc⟩ := Text.decimal_head h0
      rw [hs, List.head?_cons, Option.some.injEq] at hhead
      exact hc hhead
    · obtain rfl : n = 0 := by omega
      exact hne rfl

theorem octet_le (a : Ipv4) (place : Nat) : a.octet place ≤ 255 := by
  simp only [octet]
  omega

theorem ofText?_toChars (a : Ipv4) : ofText? a.toChars = some a := by
  have hfields : Text.fields (· == '.') a.toChars = a.octets.map Text.decimal := by
    refine Text.fields_intercalate rfl fun s hs c hc => ?_
    -- A point is no digit, so the numerals of the octets have none.
    obtain ⟨n, -, rfl⟩ := List.mem_map.mp (show s ∈ a.octets.map Text.decimal from hs)
    have hdigit := Text.mem_decimal_isDigit hc
    refine beq_false_of_ne fun h => ?_
    rw [h] at hdigit
    exact absurd hdigit (by decide)
  rw [ofText?, hfields]
  simp only [octets, List.map_cons, List.map_nil, List.mapM_cons, List.mapM_nil,
    octet?_decimal (a.octet_le _), Option.pure_def, Option.bind_eq_bind, Option.bind_some,
    ofOctets_octet]

theorem octet?_eq_some_iff {s : List Char} {b : UInt8} :
    octet? s = some b ↔ s = Text.decimal b.toNat := by
  constructor
  · intro h
    rw [octet?] at h
    split at h
    · cases h
    · next hzero =>
      split at h
      · next n hn =>
        split at h
        · next hle =>
          cases h
          have hvalue : (UInt8.ofNat n).toNat = n := by
            rw [UInt8.toNat_ofNat']
            omega
          rw [hvalue]
          exact Text.eq_decimal_of_number? hn (by simpa using hzero)
        · cases h
      · cases h
  · rintro rfl
    have hb := b.toNat_lt
    rw [octet?_decimal (by omega), UInt8.ofNat_toNat]

theorem mapM_octet?_eq_some_iff {pieces : List (List Char)} {bs : List UInt8} :
    pieces.mapM octet? = some bs ↔ pieces = bs.map fun b => Text.decimal b.toNat := by
  induction pieces generalizing bs with
  | nil => cases bs <;> simp
  | cons s pieces ih =>
    simp only [List.mapM_cons, Option.pure_def, Option.bind_eq_bind, Option.bind_eq_some_iff,
      octet?_eq_some_iff, ih, Option.some.injEq]
    cases bs with
    | nil => simp
    | cons b bs => simp

theorem octets_ofOctets (a b c d : UInt8) :
    (ofOctets a b c d).octets = [a.toNat, b.toNat, c.toNat, d.toNat] := by
  have ha := a.toNat_lt
  have hb := b.toNat_lt
  have hc := c.toNat_lt
  have hd := d.toNat_lt
  simp only [octets, octet, ofOctets, toNat_append_octet, UInt8.toNat_toBitVec,
    Nat.shiftRight_eq_div_pow]
  simp only [List.cons.injEq, and_true]
  omega

theorem ofText?_eq_some_iff {s : List Char} {a : Ipv4} : ofText? s = some a ↔ s = a.toChars := by
  constructor
  · intro h
    rw [ofText?] at h
    split at h
    · next b c d e hpieces =>
      rw [Option.some.injEq] at h
      rw [mapM_octet?_eq_some_iff] at hpieces
      rw [← Text.intercalate_fields '.' s, hpieces, toChars, ← h, octets_ofOctets]
      rfl
    · cases h
  · rintro rfl
    exact ofText?_toChars a

end LeaseKeeper.Ipv4
