/-
The lines of a text whose bytes may be damaged.

* `decodeLossy_append` — what stands before an ASCII byte and what stands after it are decoded each
  on its own, however much of a character is missing there;
* `fields_decodeLossy` — so the lines of the text are the texts of the lines;
* `eq_encode_of_decode?` — bytes that are read as ASCII are the encoding of what is read;
* `trim_concat`, `trim_append_left`, `trim_append_right` — blanks at the ends of a line do no harm.
-/
import LeaseKeeper.Proofs.Text.Fields
import LeaseKeeper.Proofs.Text.Utf8
import LeaseKeeper.Text.Blank
import Mathlib.Algebra.Group.Nat.Defs

namespace LeaseKeeper.Text

namespace Utf8

variable {n acc code : Nat} {low high b x : UInt8} {l : Lead} {s t : List UInt8} {c : Char}

/-! ### A character in front of an ASCII byte -/

/-- The least code point that a lead byte allows. -/
def Lead.least (l : Lead) : Nat := (l.payload * 64 + (l.low.toNat - 0x80)) * 64 ^ (l.tails - 1)

/-- Only an ASCII byte stands alone, and with any other no ASCII character begins. -/
theorem lead?_bounds (h : lead? b = some l) :
    0x80 ≤ l.low ∧ (0x80 ≤ b → 0 < l.tails ∧ 0x80 ≤ l.least) := by
  have key : ∀ b : BitVec 8, ∀ l ∈ lead? ⟨b⟩,
      0x80 ≤ l.low ∧ ((0x80 : UInt8) ≤ ⟨b⟩ → 0 < l.tails ∧ 0x80 ≤ l.least) := by decide
  exact key b.toBitVec l h

theorem tails_append (hx : x < 0x80) (hlow : 0x80 ≤ low) :
    tails n acc low high (s ++ x :: t) =
      ((tails n acc low high s).1, (tails n acc low high s).2 ++ x :: t) := by
  induction n generalizing acc low high s with
  | zero => rfl
  | succ n ih =>
    cases s with
    | nil =>
      have hout : ¬(low ≤ x ∧ x ≤ high) := by
        simp only [UInt8.lt_iff_toNat_lt, UInt8.le_iff_toNat_le] at *
        omega
      simp only [List.nil_append, tails, if_neg hout]
    | cons c s =>
      simp only [List.cons_append, tails]
      split
      · exact ih (UInt8.le_refl _)
      · rfl

theorem next_append (hx : x < 0x80) :
    next b (s ++ x :: t) = ((next b s).1, (next b s).2 ++ x :: t) := by
  unfold next
  cases h : lead? b with
  | none => rfl
  | some l => simp only [tails_append hx (lead?_bounds h).1]

theorem next_ascii (hx : x < 0x80) (s : List UInt8) :
    next x s = (some (Char.ofNat x.toNat), s) := by
  have hnext : next (UInt8.ofNat x.toNat) s = _ := next_one (Nat.le_of_lt_succ hx)
  rwa [UInt8.ofNat_toNat] at hnext

/-- An ASCII byte is a character, and no part of one that is begun before it. -/
theorem decodeLossy_append (hx : x < 0x80) (s t : List UInt8) :
    decodeLossy (s ++ x :: t) = decodeLossy s ++ Char.ofNat x.toNat :: decodeLossy t := by
  induction s using decodeLossy.induct with
  | case1 =>
    simp only [List.nil_append, decodeLossy, next_ascii hx, Option.getD_some]
  | case2 b s ih =>
    simp only [List.cons_append, decodeLossy, next_append hx, ih]

/-! ### Lines -/

theorem le_of_tails (h : (tails n acc low high s).1 = some code) : acc * 64 ^ n ≤ code := by
  induction n generalizing acc low high s with
  | zero =>
    cases h
    exact Nat.le_of_eq (Nat.mul_one _)
  | succ n ih =>
    cases s with
    | nil => cases h
    | cons b s =>
      rw [tails] at h
      split at h
      · calc acc * 64 ^ (n + 1) = acc * 64 * 64 ^ n := by rw [Nat.pow_succ', Nat.mul_assoc]
          _ ≤ (acc * 64 + (b.toNat - 0x80)) * 64 ^ n :=
            Nat.mul_le_mul_right _ (Nat.le_add_right _ _)
          _ ≤ code := ih h
      · cases h

theorem least_le_of_tails (hl : 0 < l.tails)
    (h : (tails l.tails l.payload l.low l.high s).1 = some code) : l.least ≤ code := by
  rw [Lead.least]
  obtain ⟨n, hn⟩ := Nat.exists_eq_succ_of_ne_zero (Nat.ne_of_gt hl)
  rw [hn] at h ⊢
  cases s with
  | nil => cases h
  | cons b s =>
    rw [tails] at h
    split at h
    · next hb =>
      refine Nat.le_trans (Nat.mul_le_mul_right _ (Nat.add_le_add_left ?_ _)) (le_of_tails h)
      exact Nat.sub_le_sub_right (UInt8.le_iff_toNat_le.mp hb.1) _
    · cases h

/-- An ASCII character other than NUL is written in one way only. -/
theorem eq_ofNat_of_next (h : (next b s).1 = some c) (hpos : 0 < c.toNat)
    (hascii : c.toNat < 0x80) : b = UInt8.ofNat c.toNat := by
  have hnumber {code : Nat} (hcode : c = Char.ofNat code) : c.toNat = code := by
    rw [hcode] at hpos ⊢
    by_cases hvalid : code.isValidChar
    · rw [Char.ofNat, dif_pos hvalid]
      rfl
    · rw [Char.ofNat, dif_neg hvalid] at hpos
      exact absurd hpos (by decide)
  by_cases hb : b < 0x80
  · rw [next_ascii hb] at h
    rw [hnumber (Option.some.inj h).symm, UInt8.ofNat_toNat]
  · rw [next] at h
    cases hl : lead? b with
    | none =>
      rw [hl] at h
      cases h
    | some l =>
      simp only [hl] at h
      obtain ⟨code, hcode, hchar⟩ := Option.map_eq_some_iff.mp h
      obtain ⟨htails, hleast⟩ := (lead?_bounds hl).2 (UInt8.not_lt.mp hb)
      have hlarge := Nat.le_trans hleast (least_le_of_tails htails hcode)
      have hsame := hnumber hchar.symm
      omega

/-- Bytes are read as ASCII characters other than NUL only if these are written so. -/
theorem eq_encode_of_decode? {cs : List Char} (h : decode? s = some cs)
    (hcs : ∀ c ∈ cs, 0 < c.toNat ∧ c.toNat < 0x80) : s = encode cs := by
  induction s using decode?.induct generalizing cs with
  | case1 =>
    rw [decode?] at h
    obtain rfl := Option.some.inj h
    rfl
  | case2 b s hnone =>
    rw [decode?, hnone] at h
    cases h
  | case3 b s c hc ih =>
    rw [decode?, hc] at h
    obtain ⟨rest, hrest, rfl⟩ := Option.map_eq_some_iff.mp h
    obtain ⟨hpos, hascii⟩ := hcs c List.mem_cons_self
    have hb := eq_ofNat_of_next hc hpos hascii
    have hbyte : b < 0x80 := by
      rw [hb, UInt8.lt_iff_toNat_lt, UInt8.toNat_ofNat']
      exact Nat.lt_of_le_of_lt (Nat.mod_le _ _) hascii
    rw [next_ascii hbyte] at hrest ih
    rw [encode_cons, encodeChar_ascii hascii, ← hb,
      ← ih hrest fun d hd => hcs d (List.mem_cons_of_mem c hd)]
    rfl

theorem tails_suffix (n acc : Nat) (low high : UInt8) (s : List UInt8) :
    (tails n acc low high s).2 <:+ s := by
  induction n generalizing acc low high s with
  | zero => exact List.suffix_rfl
  | succ n ih =>
    cases s with
    | nil => exact List.suffix_rfl
    | cons b s =>
      rw [tails]
      split
      · exact (ih _ _ _ s).trans (List.suffix_cons b s)
      · exact List.suffix_rfl

theorem next_suffix (b : UInt8) (s : List UInt8) : (next b s).2 <:+ s := by
  unfold next
  cases lead? b with
  | none => exact List.suffix_rfl
  | some l => exact tails_suffix _ _ _ _ s

theorem notMem_decodeLossy (h : 0x0A ∉ s) : '\n' ∉ decodeLossy s := by
  induction s using decodeLossy.induct with
  | case1 =>
    rw [decodeLossy]
    exact List.not_mem_nil
  | case2 b s ih =>
    rw [List.mem_cons, not_or] at h
    rw [decodeLossy, List.mem_cons, not_or]
    refine ⟨fun heq => ?_, ih fun hmem => h.2 ((next_suffix b s).subset hmem)⟩
    cases hc : (next b s).1 with
    | none =>
      rw [hc] at heq
      exact absurd heq (by decide)
    | some c =>
      rw [hc, Option.getD_some] at heq
      have hbyte := eq_ofNat_of_next hc (heq ▸ by decide) (heq ▸ by decide)
      rw [← heq] at hbyte
      exact h.1 hbyte.symm

theorem fields_decodeLossy (s : List UInt8) :
    fields (· == '\n') (decodeLossy s) = (fields (· == 0x0A) s).map decodeLossy := by
  refine separated_induction 0x0A (fun s h => ?_) (fun s t hs ht => ?_) s
  · rw [fields_of_notMem h, fields_of_notMem (notMem_decodeLossy h)]
    rfl
  · rw [decodeLossy_append (by decide), fields_append_cons rfl, fields_append_cons rfl,
      List.map_append, hs, ht]

end Utf8

/-! ### Blanks at the ends of a line -/

section Blanks

variable {gap s : List Char} {c : Char}

theorem trim_concat (hc : isBlank c = true) (s : List Char) : trim (s ++ [c]) = trim s := by
  have hend (t : List Char) : trimEnd (t ++ [c]) = trimEnd t := by
    rw [trimEnd, List.reverse_append, List.reverse_singleton, List.singleton_append,
      List.dropWhile_cons_of_pos hc]
    rfl
  rw [trim, trim, List.dropWhile_append]
  split
  · next h =>
    rw [List.isEmpty_iff.mp h, List.dropWhile_cons_of_pos hc]
    rfl
  · exact hend _

theorem trim_append_right (h : ∀ c ∈ gap, isBlank c = true) (s : List Char) :
    trim (s ++ gap) = trim s := by
  induction gap generalizing s with
  | nil => rw [List.append_nil]
  | cons c gap ih =>
    obtain ⟨hc, hgap⟩ := List.forall_mem_cons.mp h
    rw [List.append_cons, ih hgap, trim_concat hc]

theorem trim_append_left (h : ∀ c ∈ gap, isBlank c = true) (s : List Char) :
    trim (gap ++ s) = trim s := by
  rw [trim, List.dropWhile_append_of_pos h, trim]

theorem trim_eq_self (h : ∀ c ∈ s, isBlank c = false) : trim s = s := by
  have hdrop {t : List Char} (ht : ∀ c ∈ t, isBlank c = false) : t.dropWhile isBlank = t := by
    cases t with
    | nil => rfl
    | cons c t => exact List.dropWhile_cons_of_neg (Bool.eq_false_iff.mp (ht c List.mem_cons_self))
  have hreverse : ∀ c ∈ s.reverse, isBlank c = false := fun c hc => h c (List.mem_reverse.mp hc)
  rw [trim, hdrop h, trimEnd, hdrop hreverse, List.reverse_reverse]

theorem mem_trim (hc : isBlank c = false) (h : c ∈ s) : c ∈ trim s := by
  have hstart : c ∈ s.dropWhile isBlank := mem_dropWhile hc h
  exact List.mem_reverse.mpr (mem_dropWhile hc (List.mem_reverse.mpr hstart))

end Blanks

end LeaseKeeper.Text
