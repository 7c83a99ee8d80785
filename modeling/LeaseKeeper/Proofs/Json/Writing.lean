/-
What is written is as the grammar has it, and so strings and integers read back.

* `spells_escapedChar` — a character as it stands in a written document is one of its spellings;
* `string_quotedString`, `nextKey_quoted_first`, `nextKey_quoted_next` — a string, or a key, reads
  back from its literal, whatever follows it;
* `encode_integer`, `number_ofInt` — an integer is written as a number literal that stands for it;
* `Value.Shows` — in a layout, a value is written as a text of a document; there is a lemma for each
  kind of value but doubles.
-/
import LeaseKeeper.Proofs.Json.Scanning
import Mathlib.Data.List.Forall2

namespace LeaseKeeper.Json

open Text.Utf8 (encode)

/-! ### Strings -/

theorem spells_shortEscape (p : Char × Char) (hp : p ∈ shortEscapes) :
    Spells p.2 (encode ['\\', p.1]) := by
  have htable : ∀ p ∈ shortEscapes, encode ['\\', p.1] = [byte '\\', byte p.1] := by decide
  rw [htable p hp]
  exact .short hp

/-- The digits of a number below 256, with two zeros in front of them. -/
def HexFour.ofLow (n : Nat) (h : n < 0x100) : HexFour where
  chars := ['0', '0', Text.hexDigit (n / 16), Text.hexDigit (n % 16)].get
  digits := [0, 0, n / 16, n % 16].get
  digits_eq := by
    have hzero : Text.hexDigit? '0' = some 0 := by decide
    rintro ⟨_ | _ | _ | _ | i, hi⟩
    · exact hzero
    · exact hzero
    · exact Text.hexDigit?_hexDigit (by omega)
    · exact Text.hexDigit?_hexDigit (Nat.mod_lt n (by decide))
    · omega

theorem HexFour.number_ofLow (n : Nat) (h : n < 0x100) : (ofLow n h).number = n := by
  show 16 * (16 * (16 * 0 + 0) + n / 16) + n % 16 = n
  omega

/-- A control character is written as its code point, which is no surrogate. -/
theorem spells_control {c : Char} (h : c.toNat < 0x20) :
    Spells c (encode
      ['\\', 'u', '0', '0', Text.hexDigit (c.toNat / 16), Text.hexDigit (c.toNat % 16)]) := by
  have hlow : c.toNat < 0x100 := by omega
  have hnumber := HexFour.number_ofLow c.toNat hlow
  have hspells := Spells.code (.ofLow c.toNat hlow)
    (by rw [HexFour.IsHigh, hnumber]; omega) (by rw [HexFour.IsLow, hnumber]; omega)
  rw [hnumber, Char.ofNat_toNat] at hspells
  have hdigit : ∀ n : Fin 16, (Text.hexDigit n).toNat < 0x80 := by decide
  have hfirst := hdigit ⟨c.toNat / 16, by omega⟩
  have hsecond := hdigit ⟨c.toNat % 16, by omega⟩
  rw [encode_ascii (by simp [hfirst, hsecond])]
  exact hspells

theorem spells_escapedChar (c : Char) : Spells c (encode (escapedChar c)) := by
  -- The cases are those of `escapedChar`: seven short escapes, a code point, the character.
  unfold escapedChar
  split
  · next h => subst h; exact spells_shortEscape ('"', '"') (by decide)
  split
  · next h => subst h; exact spells_shortEscape ('\\', '\\') (by decide)
  split
  · next h => subst h; exact spells_shortEscape ('b', '\x08') (by decide)
  split
  · next h => subst h; exact spells_shortEscape ('t', '\t') (by decide)
  split
  · next h => subst h; exact spells_shortEscape ('n', '\n') (by decide)
  split
  · next h => subst h; exact spells_shortEscape ('f', '\x0c') (by decide)
  split
  · next h => subst h; exact spells_shortEscape ('r', '\r') (by decide)
  split
  · next h => exact spells_control h
  · next hquote hslash _ _ _ _ _ hcontrol =>
    rw [encode, List.flatMap_singleton]
    exact .plain hquote hslash (Nat.not_lt.mp hcontrol)

theorem spellsText_escaped (cs : List Char) : SpellsText cs (encode (cs.flatMap escapedChar)) := by
  induction cs with
  | nil => exact .nil
  | cons c cs ih =>
    rw [List.flatMap_cons, Text.Utf8.encode_append]
    exact .cons (spells_escapedChar c) ih

theorem encode_quotedString (t : String) : encode (quotedString t) =
    byte '"' :: (encode (t.toList.flatMap escapedChar) ++ [byte '"']) := by
  rw [quotedString, encode_cons_ascii (by decide), Text.Utf8.encode_append]
  rfl

theorem string_quotedString (t : String) (s : List UInt8) :
    ∃ rest, encode (quotedString t) ++ s = byte '"' :: rest ∧ string rest = .ok (t, s) := by
  refine ⟨encode (t.toList.flatMap escapedChar) ++ byte '"' :: s, ?_,
    string_spellsText (spellsText_escaped t.toList) s⟩
  rw [encode_quotedString, List.cons_append, List.append_assoc]
  rfl

theorem nextKey_quoted_first (key : String) (layout : Layout) (depth : Nat) (s : List UInt8) :
    nextKey true (encode (layout.lineBreak depth) ++ (encode (quotedString key) ++ s)) =
      .ok (some key, s) := by
  obtain ⟨rest, hrest, hstring⟩ := string_quotedString key s
  rw [hrest]
  exact nextKey_first (blank_lineBreak layout depth) hstring

theorem nextKey_quoted_next (key : String) (layout : Layout) (depth : Nat) (s : List UInt8) :
    nextKey false (byte ',' :: (encode (layout.lineBreak depth) ++
      (encode (quotedString key) ++ s))) = .ok (some key, s) := by
  obtain ⟨rest, hrest, hstring⟩ := string_quotedString key s
  rw [hrest]
  exact nextKey_next blank_nil (blank_lineBreak layout depth) hstring

/-! ### Integers -/

/-- The literal that is written for an integer. -/
def Numeral.ofInt (k : Int) : Numeral := ⟨decide (k < 0), k.natAbs, none, none⟩

theorem encode_integer (k : Int) : encode (Text.integer k) = (Numeral.ofInt k).bytes := by
  have hunsigned : (Numeral.ofInt k).unsigned = Text.decimal k.natAbs := by
    simp [Numeral.ofInt, Numeral.unsigned]
  rw [Numeral.bytes, hunsigned]
  cases k with
  | ofNat n =>
    have hnegative : ¬(Numeral.ofInt (.ofNat n)).negative = true :=
      fun h => Int.not_lt.mpr (Int.natCast_nonneg n) (of_decide_eq_true h)
    rw [Text.integer, encode_decimal, if_neg hnegative]
    rfl
  | negSucc n =>
    have hnegative : (Numeral.ofInt (.negSucc n)).negative = true :=
      decide_eq_true (Int.negSucc_lt_zero n)
    rw [Text.integer, encode_cons_ascii (by decide), encode_decimal, if_pos hnegative]
    rfl

theorem Numeral.signed_ofInt (k : Int) : (Numeral.ofInt k).signed = k := by
  simp only [Numeral.signed, Numeral.ofInt, decide_eq_true_eq]
  split <;> omega

/-- The literal of an integer that fits into 64 bits stands for it. -/
theorem number_ofInt {k : Int} (hle : -0x8000000000000000 ≤ k) (hlt : k < 0x8000000000000000) :
    (Numeral.ofInt k).literal.number (Numeral.ofInt k).negative = .ok (.integer k) := by
  have hinteger : (Numeral.ofInt k).IsInteger := by
    simp only [Numeral.IsInteger, Numeral.ofInt, Numeral.isWhole, decide_eq_true_eq]
    refine ⟨rfl, by omega, fun hk => by omega⟩
  rw [number_of_isInteger hinteger, Numeral.signed_ofInt]

/-! ### Documents -/

section Items

variable {α β : Type} {R : β → List UInt8 → Prop} {item : α → List Char} {as : List α} {bs : List β}

/-- The items after the first one, each on its own line, up to the closing bracket. -/
theorem separated_items (layout : Layout) (depth : Nat) {w : List UInt8} (hw : Blank w)
    (h : List.Forall₂ (fun a b => R b (encode (item a))) as bs) :
    Separated R bs
      (encode (as.flatMap fun a => ',' :: (layout.lineBreak depth ++ item a)) ++ w) := by
  induction h with
  | nil => exact .done hw
  | cons ha _ ih =>
    rw [List.flatMap_cons, List.cons_append, encode_cons_ascii (by decide)]
    simp only [Text.Utf8.encode_append, List.append_assoc, List.cons_append]
    exact .more blank_nil (blank_lineBreak layout depth) ha ih

theorem enclosed_items (layout : Layout) (depth : Nat) {opening closing : Char}
    (hopening : opening.toNat < 0x80) (hclosing : closing.toNat < 0x80) {a : α} {b : β}
    (ha : R b (encode (item a))) (h : List.Forall₂ (fun a b => R b (encode (item a))) as bs) :
    Enclosed R opening closing (b :: bs) (encode (opening :: (layout.lineBreak (depth + 1) ++
      item a ++ (as.flatMap fun a => ',' :: (layout.lineBreak (depth + 1) ++ item a)) ++
      layout.lineBreak depth ++ [closing]))) := by
  -- The line break before the closing bracket is the white space after the last item.
  have hrest := separated_items layout (depth + 1) (blank_lineBreak layout depth) h
  have hitems : Enclosed R opening closing (b :: bs) _ :=
    .items (blank_lineBreak layout (depth + 1)) ha hrest
  have hlast : encode [closing] = [byte closing] := encode_ascii (by simpa using hclosing)
  rw [encode_cons_ascii hopening]
  simpa only [Text.Utf8.encode_append, List.append_assoc, hlast] using hitems

end Items

namespace Value

variable {layout : Layout} {v : Value} {d : Document} {vs : List Value} {ds : List Document}
  {fs : List (String × Value)} {gs : List (String × Document)}

/-- Wherever the value stands, its text is one of the document. -/
def Shows (layout : Layout) (v : Value) (d : Document) : Prop :=
  ∀ depth, Writes d (encode (v.writeAt layout depth))

theorem shows_null : Shows layout .null .null := fun _ => .null

theorem shows_boolean (b : Bool) : Shows layout (.boolean b) (.boolean b) := by
  intro depth
  cases b
  · exact .boolean false
  · exact .boolean true

theorem shows_integer (n : Int) : Shows layout (.integer n) (.number (.ofInt n)) := by
  intro depth
  rw [writeAt, encode_integer]
  exact .number _

theorem shows_string (t : String) : Shows layout (.string t) (.string t) := by
  intro depth
  rw [writeAt, encode_quotedString]
  exact .string (spellsText_escaped t.toList)

theorem writeElements_eq (layout : Layout) (depth : Nat) (vs : List Value) :
    writeElements layout depth vs =
      vs.flatMap fun v => ',' :: (layout.lineBreak depth ++ v.writeAt layout depth) := by
  induction vs with
  | nil => rw [writeElements, List.flatMap_nil]
  | cons v vs ih => rw [writeElements, ih, List.flatMap_cons, List.cons_append]

theorem shows_array (h : List.Forall₂ (Shows layout) vs ds) :
    Shows layout (.array vs) (.array ds) := by
  intro depth
  cases h with
  | nil => exact .array (.empty blank_nil)
  | cons hv hvs =>
    rw [writeAt, writeElements_eq]
    exact .array (enclosed_items layout depth (by decide) (by decide) (hv (depth + 1))
      (hvs.imp fun _ _ hshows => hshows (depth + 1)))

/-- A field with its key, `depth` levels deep. -/
def writeField (layout : Layout) (depth : Nat) (f : String × Value) : List Char :=
  quotedString f.1 ++ (layout.colon ++ f.2.writeAt layout depth)

theorem writeFields_eq (layout : Layout) (depth : Nat) (fs : List (String × Value)) :
    writeFields layout depth fs =
      fs.flatMap fun f => ',' :: (layout.lineBreak depth ++ writeField layout depth f) := by
  induction fs with
  | nil => rw [writeFields, List.flatMap_nil]
  | cons f fs ih =>
    rw [writeFields, ih, List.flatMap_cons, writeField]
    simp only [List.append_assoc, List.cons_append]

theorem writesField_writeField (key : String) (depth : Nat) (h : Shows layout v d) :
    WritesField Writes (key, d) (encode (writeField layout depth (key, v))) := by
  have hcolon : ∃ x, Blank x ∧ encode layout.colon = byte ':' :: x := by
    cases layout with
    | compact => exact ⟨[], blank_nil, by decide⟩
    | indented => exact ⟨[byte ' '], by decide, by decide⟩
  obtain ⟨x, hx, hcolon⟩ := hcolon
  rw [writeField, Text.Utf8.encode_append, Text.Utf8.encode_append, encode_quotedString, hcolon,
    List.cons_append, List.append_assoc]
  exact .mk (spellsText_escaped key.toList) blank_nil hx (h depth)

/-- The fields of an object have their keys, and what they hold is shown. -/
theorem shows_object
    (h : List.Forall₂ (fun f g => f.1 = g.1 ∧ Shows layout f.2 g.2) fs gs) :
    Shows layout (.object fs) (.object gs) := by
  have hfield (depth : Nat) (f : String × Value) (g : String × Document)
      (hfg : f.1 = g.1 ∧ Shows layout f.2 g.2) :
      WritesField Writes g (encode (writeField layout depth f)) := by
    obtain ⟨key, v⟩ := f
    obtain ⟨key', d⟩ := g
    obtain ⟨rfl, hshows⟩ := hfg
    exact writesField_writeField key depth hshows
  intro depth
  cases h with
  | nil => exact .object (.empty blank_nil)
  | cons hf hfs =>
    have henclosed : Enclosed (WritesField Writes) '\x7b' '\x7d' _ _ :=
      enclosed_items layout depth (by decide) (by decide) (hfield (depth + 1) _ _ hf)
        (hfs.imp (hfield (depth + 1)))
    rw [writeAt, writeFields_eq]
    simp only [writeField, List.append_assoc] at henclosed ⊢
    exact .object henclosed

/-- A whole text, on one line or on many. -/
theorem Shows.isText (h : Shows layout v d) : IsText d (encode (v.write layout)) :=
  ⟨[], _, [], blank_nil, h 0, blank_nil, (List.append_nil _).symm⟩

end Value

end LeaseKeeper.Json
