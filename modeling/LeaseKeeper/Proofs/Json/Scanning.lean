/-
The literals of a text are read as the grammar has them.

* `number_unsigned`, `skipNumber_unsigned` — a number literal of any form is read to its end;
* `number_of_isInteger`, `number_of_not_isInteger` — which literals stand for integers;
* `content_spells` — a character is read from whatever it stands as, also where it is skipped;
* `string_spellsText`, `skipString_spellsText` — the same for whole strings.

Design notes: the lemmas on numbers are about a literal after its sign, which is read before.
-/
import LeaseKeeper.Proofs.Json.Grammar
import LeaseKeeper.Proofs.Text.Hexadecimal

namespace LeaseKeeper.Json

variable {s rest : List UInt8}

/-! ### Numbers -/

/-- The digits of a numeral as they are read. -/
def Numeral.literal (n : Numeral) : Literal where
  whole := (Text.decimal n.whole).map byte
  fraction := n.fraction.map fun ds => ds.chars.map byte
  exponent := n.exponent.map fun e => (e.sign == some '-', e.digits.chars.map byte)

theorem Digits.exists_cons (ds : Digits) :
    ∃ b t, ds.chars.map byte = b :: t ∧ isDigit b = true := by
  obtain ⟨cs, hne, hdigit⟩ := ds
  cases cs with
  | nil => exact absurd rfl hne
  | cons c cs => exact ⟨byte c, cs.map byte, rfl, isDigit_byte (hdigit c List.mem_cons_self)⟩

theorem someDigits_chars (atEnd : Fault) (ds : Digits) (hs : EndsDigits s) :
    someDigits atEnd (ds.chars.map byte ++ s) = .ok (ds.chars.map byte, s) := by
  obtain ⟨htake, hdrop⟩ := takeWhile_isDigit_map ds.all_digits hs
  obtain ⟨b, t, hb, -⟩ := ds.exists_cons
  rw [someDigits, htake, hdrop, hb]

/-- What stands between the whole part and the exponent. -/
def Numeral.fractionBytes (n : Numeral) : List UInt8 :=
  n.fraction.elim [] fun ds => byte '.' :: ds.chars.map byte

def Numeral.exponentBytes (n : Numeral) : List UInt8 :=
  n.exponent.elim [] fun e => byte e.marker :: (e.sign.toList.map byte ++ e.digits.chars.map byte)

theorem Numeral.map_unsigned (n : Numeral) :
    n.unsigned.map byte =
      (Text.decimal n.whole).map byte ++ (n.fractionBytes ++ n.exponentBytes) := by
  rw [unsigned, List.map_append, List.map_append, List.append_assoc, fractionBytes, exponentBytes]
  cases n.fraction <;> cases n.exponent <;> simp

theorem endsDigits_exponentBytes (n : Numeral) (hs : EndsNumber s) :
    EndsDigits (n.exponentBytes ++ s) ∧
      ∀ b t, n.exponentBytes ++ s = b :: t → b ≠ byte '.' := by
  rw [Numeral.exponentBytes]
  cases n.exponent with
  | none => exact ⟨hs.endsDigits, fun b t h => (hs b t h).2.1⟩
  | some e =>
    have hmarker : isDigit (byte e.marker) = false ∧ byte e.marker ≠ byte '.' := by
      rcases e.marker_eq with h | h <;> rw [h] <;> decide
    refine ⟨fun b t h => ?_, fun b t h => ?_⟩ <;> cases h
    · exact hmarker.1
    · exact hmarker.2

theorem fractionDigits_numeral (atEnd : Fault) (n : Numeral) (hs : EndsNumber s) :
    fractionDigits atEnd (n.fractionBytes ++ (n.exponentBytes ++ s)) =
      .ok (n.literal.fraction, n.exponentBytes ++ s) := by
  obtain ⟨hends, hpoint⟩ := endsDigits_exponentBytes n hs
  rw [Numeral.fractionBytes, Numeral.literal]
  cases n.fraction with
  | none =>
    cases hrest : n.exponentBytes ++ s with
    | nil => rfl
    | cons b t => exact if_neg (hpoint b t hrest)
  | some ds =>
    have hdigits := someDigits_chars atEnd ds hends
    simp only [Option.elim, List.cons_append, fractionDigits, if_true, hdigits]
    rfl

theorem exponentDigits_numeral (atEnd : Fault) (n : Numeral) (hs : EndsNumber s) :
    exponentDigits atEnd (n.exponentBytes ++ s) = .ok (n.literal.exponent, s) := by
  rw [Numeral.exponentBytes, Numeral.literal]
  cases n.exponent with
  | none =>
    cases s with
    | nil => rfl
    | cons b t =>
      obtain ⟨-, -, he, hE⟩ := hs b t rfl
      exact if_neg (not_or.mpr ⟨he, hE⟩)
  | some e =>
    obtain ⟨marker, sign, digits, hmarker, hsign⟩ := e
    have hm : byte marker = byte 'e' ∨ byte marker = byte 'E' :=
      hmarker.imp (congrArg byte) (congrArg byte)
    have hdigits := someDigits_chars atEnd digits hs.endsDigits
    cases sign with
    | none =>
      obtain ⟨b, t, hb, hdigit⟩ := digits.exists_cons
      have hnot : ¬(b = byte '+' ∨ b = byte '-') :=
        not_or.mpr ⟨ne_of_isDigit hdigit (by decide), ne_of_isDigit hdigit (by decide)⟩
      simp only [Option.elim, Option.toList_none, List.map_nil, List.nil_append, List.cons_append,
        Option.map_some]
      rw [hb, List.cons_append] at hdigits ⊢
      simp only [exponentDigits, if_pos hm, if_neg hnot, hdigits]
      rfl
    | some c =>
      have hsigned {x : UInt8} (hx : x = byte '+' ∨ x = byte '-') :
          exponentDigits atEnd (byte marker :: x :: (digits.chars.map byte ++ s)) =
            .ok (some (x == byte '-', digits.chars.map byte), s) := by
        simp only [exponentDigits, if_pos hm, if_pos hx, hdigits]
        rfl
      rcases hsign c rfl with rfl | rfl
      · exact hsigned (.inl rfl)
      · exact hsigned (.inr rfl)

theorem literal_unsigned (atEnd : Fault) (n : Numeral) (hs : EndsNumber s) :
    literal atEnd (n.unsigned.map byte ++ s) = .ok (n.literal, s) := by
  have hwhole : EndsDigits (n.fractionBytes ++ (n.exponentBytes ++ s)) := by
    rw [Numeral.fractionBytes]
    cases n.fraction with
    | none => exact (endsDigits_exponentBytes n hs).1
    | some ds =>
      intro b t h
      cases h
      decide
  rw [n.map_unsigned, List.append_assoc, List.append_assoc, literal,
    wholeDigits_decimal atEnd n.whole hwhole]
  simp only [bind, Except.bind, pure, Except.pure, fractionDigits_numeral atEnd n hs,
    exponentDigits_numeral atEnd n hs]
  rfl

theorem number_unsigned (negative : Bool) (n : Numeral) (hs : EndsNumber s) :
    number negative (n.unsigned.map byte ++ s) =
      (n.literal.number negative).map fun x => (x, s) := by
  rw [number, literal_unsigned .endInValue n hs]
  simp only [bind, Except.bind, pure, Except.pure]
  cases n.literal.number negative <;> rfl

theorem skipNumber_unsigned (n : Numeral) (hs : EndsNumber s) :
    skipNumber (n.unsigned.map byte ++ s) = .ok s := by
  rw [skipNumber, literal_unsigned .invalidNumber n hs]
  rfl

/-- Digits that are all taken in stand for a number that fits into 64 bits. -/
theorem appendDigits_lt {cs : List Char} {n : Nat} (hn : n < 0x10000000000000000)
    (hcs : ∀ c ∈ cs, c.isDigit = true) (h : (appendDigits n (cs.map byte)).2 = cs.length) :
    Nat.ofDigitChars 10 cs n < 0x10000000000000000 := by
  induction cs generalizing n with
  | nil => exact hn
  | cons c cs ih =>
    have hc := digitValue_byte (hcs c List.mem_cons_self)
    rw [List.map_cons, appendDigits, hc] at h
    rw [Nat.ofDigitChars_cons]
    by_cases hfits : 10 * n + (c.toNat - '0'.toNat) < 0x10000000000000000
    · rw [if_pos hfits] at h
      exact ih hfits (fun d hd => hcs d (List.mem_cons_of_mem c hd)) (Nat.succ.inj h)
    · rw [if_neg hfits] at h
      cases h

/-- Whether a literal stands for an integer that fits into 64 bits, signed or not.  A zero with a
sign is none. -/
def Numeral.IsInteger (n : Numeral) : Prop :=
  n.isWhole = true ∧ n.whole < 0x10000000000000000 ∧
    (n.negative = true → 0 < n.whole ∧ n.whole ≤ 0x8000000000000000)

/-- The digits are those of a whole number of 64 bits. -/
theorem taken_iff (n : Numeral) :
    ((appendDigits 0 n.literal.whole).2 = n.literal.whole.length ∧
      n.literal.fraction.isNone = true ∧ n.literal.exponent.isNone = true) ↔
    n.isWhole = true ∧ n.whole < 0x10000000000000000 := by
  have hparts : n.literal.fraction.isNone = true ∧ n.literal.exponent.isNone = true ↔
      n.isWhole = true := by
    simp [Numeral.literal, Numeral.isWhole]
  have htaken : (appendDigits 0 n.literal.whole).2 = n.literal.whole.length ↔
      n.whole < 0x10000000000000000 := by
    simp only [Numeral.literal, List.length_map]
    refine ⟨fun h => ?_, fun h => by rw [appendDigits_decimal h]⟩
    have hvalue : Nat.ofDigitChars 10 (Text.decimal n.whole) 0 = n.whole :=
      Nat.ofDigitChars_ten_toDigits
    rw [← hvalue]
    exact appendDigits_lt (by decide) (fun c hc => Text.mem_decimal_isDigit hc) h
  rw [hparts, htaken, and_comm]

theorem number_of_isInteger {n : Numeral} (h : n.IsInteger) :
    n.literal.number n.negative = .ok (.integer n.signed) := by
  obtain ⟨hwhole, hfits, hnegative⟩ := h
  have htaken := (taken_iff n).mpr ⟨hwhole, hfits⟩
  have hdigits : (appendDigits 0 n.literal.whole).1 = n.whole := by
    rw [Numeral.literal, appendDigits_decimal hfits]
  rw [Literal.number, Numeral.signed]
  simp only [hdigits]
  cases hsign : n.negative with
  | false => exact if_pos ⟨htaken, Bool.false_ne_true⟩
  | true => exact (if_neg fun hand => hand.2 rfl).trans (if_pos ⟨htaken, hnegative hsign⟩)

theorem number_of_not_isInteger {n : Numeral} (h : ¬n.IsInteger) (k : Int) :
    n.literal.number n.negative ≠ .ok (.integer k) := by
  have hdouble (f : Float → UInt64) :
      n.literal.double.map (fun x => Number.double (f x)) ≠ .ok (.integer k) := by
    intro heq
    cases hd : n.literal.double with
    | error e =>
      rw [hd] at heq
      cases heq
    | ok x =>
      rw [hd] at heq
      cases heq
  rw [Literal.number]
  dsimp only
  by_cases htaken : (appendDigits 0 n.literal.whole).2 = n.literal.whole.length ∧
      n.literal.fraction.isNone = true ∧ n.literal.exponent.isNone = true
  · obtain ⟨hwhole, hfits⟩ := (taken_iff n).mp htaken
    have hdigits : (appendDigits 0 n.literal.whole).1 = n.whole := by
      rw [Numeral.literal, appendDigits_decimal hfits]
    have hsign : n.negative = true ∧ ¬(0 < n.whole ∧ n.whole ≤ 0x8000000000000000) := by
      refine ⟨?_, fun hrange => h ⟨hwhole, hfits, fun _ => hrange⟩⟩
      refine Classical.byContradiction fun hnot => h ⟨hwhole, hfits, fun hyes => absurd hyes hnot⟩
    rw [if_neg fun hand => hand.2 hsign.1, hdigits, if_neg fun hand => hsign.2 hand.2]
    exact hdouble _
  · rw [if_neg fun hand => htaken hand.1, if_neg fun hand => htaken hand.1]
    exact hdouble _

/-! ### Strings -/

theorem ofUInt8_byte {c : Char} (h : c.toNat < 0x100) : Char.ofUInt8 (byte c) = c := by
  refine Char.toNat_inj.mp ?_
  show (byte c).toNat = c.toNat
  rw [byte, UInt8.toNat_ofNat']
  omega

theorem hexFour_bytes (h : HexFour) (s : List UInt8) :
    hexFour (h.bytes ++ s) = .ok (h.number, s) := by
  have hdigit (i : Fin 4) :
      Text.hexDigit? (Char.ofUInt8 (byte (h.chars i))) = some (h.digits i) := by
    rw [ofUInt8_byte (Text.lt_of_hexDigit? (h.digits_eq i)), h.digits_eq]
  simp only [HexFour.bytes, List.cons_append, List.nil_append, hexFour, List.mapM_cons,
    List.mapM_nil, hdigit, Option.pure_def, Option.bind_eq_bind, Option.bind_some, List.foldl_cons,
    List.foldl_nil, HexFour.number]
  rw [Nat.mul_zero, Nat.zero_add]

theorem codePoint_code {h : HexFour} (hhigh : ¬h.IsHigh) (hlow : ¬h.IsLow) (s : List UInt8) :
    codePoint (h.bytes ++ s) = .ok (Char.ofNat h.number, s) := by
  rw [HexFour.IsHigh] at hhigh
  rw [HexFour.IsLow] at hlow
  rw [codePoint, hexFour_bytes]
  simp only [bind, Except.bind]
  rw [if_neg hlow]
  simp only [pure, Except.pure]
  rw [if_pos (by omega)]

theorem codePoint_pair {high low : HexFour} (hhigh : high.IsHigh) (hlow : low.IsLow)
    (s : List UInt8) :
    codePoint (high.bytes ++ byte '\\' :: byte 'u' :: (low.bytes ++ s)) =
      .ok (Char.ofNat (0x10000 + (high.number - 0xD800) * 0x400 + (low.number - 0xDC00)), s) := by
  rw [HexFour.IsHigh] at hhigh
  rw [HexFour.IsLow] at hlow
  rw [codePoint, hexFour_bytes]
  simp only [bind, Except.bind]
  rw [if_neg (by omega)]
  simp only [pure, Except.pure]
  rw [if_neg (by omega)]
  simp only [pairByte, if_true, hexFour_bytes]
  rw [if_neg (by omega)]

theorem escape_kept {c : Char} {rest : List UInt8} (h : codePoint s = .ok (c, rest)) :
    escape .kept (byte 'u' :: s) = .ok (String.utf8EncodeChar c, rest) := by
  have hu : shortEscape? (byte 'u') = none := by decide
  simp only [escape, hu, h]
  rfl

theorem escape_skipped (h : HexFour) (rest : List UInt8) :
    escape .skipped (byte 'u' :: (h.bytes ++ rest)) = .ok ([], rest) := by
  have hu : shortEscape? (byte 'u') = none := by decide
  simp only [escape, hu, hexFour_bytes]
  rfl

/-- What a character adds to the content of a literal, whatever it stands as. -/
theorem content_spells {c : Char} (h : Spells c s) (care : Care) :
    ∃ bs, (care = .kept → bs = String.utf8EncodeChar c) ∧ ∀ rest, content care (s ++ rest) =
      (content care rest).map fun (more, after) => (bs ++ more, after) := by
  cases h with
  | plain hquote hslash hcontrol =>
    refine ⟨_, fun _ => rfl, content_append fun b hb => ?_⟩
    exact isPlain_of_mem_encodeChar hquote hslash (Nat.not_lt.mpr hcontrol) hb
  | @short c letter hmem =>
    have htable : ∀ p ∈ shortEscapes,
        shortEscape? (byte p.1) = some (byte p.2) ∧ p.2.toNat < 0x80 := by decide
    obtain ⟨hshort, hascii⟩ := htable _ hmem
    refine ⟨[byte c], fun _ => (Text.Utf8.encodeChar_ascii hascii).symm, fun rest => ?_⟩
    have hescape : escape care (byte letter :: rest) = .ok ([byte c], rest) := by
      simp only [escape, hshort]
    exact content_escape hescape
  | code four hhigh hlow =>
    cases care with
    | kept =>
      refine ⟨_, fun _ => rfl, fun rest => ?_⟩
      exact content_escape (escape_kept (codePoint_code hhigh hlow rest))
    | skipped =>
      exact ⟨[], Care.noConfusion, fun rest => content_escape (escape_skipped four rest)⟩
  | pair high low hhigh hlow =>
    cases care with
    | kept =>
      refine ⟨_, fun _ => rfl, fun rest => ?_⟩
      rw [List.cons_append, List.cons_append, List.append_assoc]
      exact content_escape (escape_kept (codePoint_pair hhigh hlow rest))
    | skipped =>
      refine ⟨[], Care.noConfusion, fun rest => ?_⟩
      -- A pair that is skipped is two escapes.
      rw [List.cons_append, List.cons_append, List.append_assoc,
        content_escape (escape_skipped high _), List.cons_append, List.cons_append,
        content_escape (escape_skipped low rest)]
      cases content .skipped rest <;> rfl

theorem content_spellsText {cs : List Char} (h : SpellsText cs s) (care : Care) :
    ∃ bs, (care = .kept → bs = Text.Utf8.encode cs) ∧ ∀ rest,
      content care (s ++ byte '"' :: rest) = .ok (bs, rest) := by
  induction h with
  | nil => exact ⟨[], fun _ => rfl, content_quote⟩
  | cons hc hcs ih =>
    obtain ⟨bs, hbs, hread⟩ := content_spells hc care
    obtain ⟨more, hmore, hrest⟩ := ih
    refine ⟨bs ++ more, fun hkept => ?_, fun rest => ?_⟩
    · rw [hbs hkept, hmore hkept, Text.Utf8.encode_cons]
    · rw [List.append_assoc, hread, hrest]
      rfl

theorem string_spellsText {t : String} (h : SpellsText t.toList s) (rest : List UInt8) :
    string (s ++ byte '"' :: rest) = .ok (t, rest) := by
  obtain ⟨bs, hbs, hread⟩ := content_spellsText h .kept
  rw [string, hread, hbs rfl]
  simp only [bind, Except.bind, pure, Except.pure, Text.Utf8.decode?_encode, String.ofList_toList]

theorem skipString_spellsText {cs : List Char} (h : SpellsText cs s) (rest : List UInt8) :
    skipString (s ++ byte '"' :: rest) = .ok rest := by
  obtain ⟨bs, -, hread⟩ := content_spellsText h .skipped
  rw [skipString, hread]
  rfl

end LeaseKeeper.Json
