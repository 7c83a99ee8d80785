/-
JSON text, as a grammar.

* `Document` — documents as trees, with their number literals as they are written;
* `Spells`, `SpellsText` — the ways in which a character, or a string, can stand in a literal;
* `Writes` — the texts of a document, with any white space between its parts;
* `IsText` — the texts of a whole file;
* `Writes.leads` — the first byte of a text tells what kind of document it is.

Design notes: lists and objects are both `Enclosed`, which takes what it means to write one item.
So a text is written in one way for lists of any items, and the items of a list are part of its text
with nothing but commas and white space between them.
-/
import LeaseKeeper.Proofs.Json.Layout
import LeaseKeeper.Proofs.Json.Numbers

namespace LeaseKeeper.Json

/-! ### Number literals -/

/-- At least one decimal digit. -/
structure Digits where
  chars : List Char
  ne_nil : chars ≠ []
  all_digits : ∀ c ∈ chars, c.isDigit = true

structure Exponent where
  marker : Char
  sign : Option Char
  digits : Digits
  marker_eq : marker = 'e' ∨ marker = 'E'
  sign_eq : ∀ c ∈ sign, c = '+' ∨ c = '-'

/-- A number literal.  Its whole part has no leading zeros, so it is the numeral of a number. -/
structure Numeral where
  negative : Bool
  whole : Nat
  fraction : Option Digits
  exponent : Option Exponent

namespace Numeral

/-- The literal after its sign. -/
def unsigned (n : Numeral) : List Char :=
  Text.decimal n.whole ++ (n.fraction.elim [] fun ds => '.' :: ds.chars) ++
    (n.exponent.elim [] fun e => e.marker :: (e.sign.toList ++ e.digits.chars))

def bytes (n : Numeral) : List UInt8 :=
  if n.negative then byte '-' :: n.unsigned.map byte else n.unsigned.map byte

/-- Whether the literal has neither fraction nor exponent. -/
def isWhole (n : Numeral) : Bool := n.fraction.isNone && n.exponent.isNone

/-- The number before the point, with its sign. -/
def signed (n : Numeral) : Int := if n.negative then -n.whole else n.whole

end Numeral

/-! ### Documents -/

inductive Document where
  | null
  | boolean (b : Bool)
  | number (n : Numeral)
  | string (s : String)
  | array (elements : List Document)
  | object (fields : List (String × Document))

/-! ### String literals -/

/-- The letters that stand for another character after a backslash, and for which. -/
def shortEscapes : List (Char × Char) :=
  [('"', '"'), ('\\', '\\'), ('/', '/'), ('b', '\x08'), ('f', '\x0c'), ('n', '\n'), ('r', '\r'),
    ('t', '\t')]

/-- Four hexadecimal digits, in either case, and their number. -/
structure HexFour where
  chars : Fin 4 → Char
  digits : Fin 4 → Nat
  digits_eq : ∀ i, Text.hexDigit? (chars i) = some (digits i)

namespace HexFour

def number (h : HexFour) : Nat :=
  16 * (16 * (16 * h.digits 0 + h.digits 1) + h.digits 2) + h.digits 3

def bytes (h : HexFour) : List UInt8 :=
  [byte (h.chars 0), byte (h.chars 1), byte (h.chars 2), byte (h.chars 3)]

/-- Whether the number is the first half of a surrogate pair. -/
def IsHigh (h : HexFour) : Prop := 0xD800 ≤ h.number ∧ h.number ≤ 0xDBFF

/-- Whether the number is the second half of a surrogate pair. -/
def IsLow (h : HexFour) : Prop := 0xDC00 ≤ h.number ∧ h.number ≤ 0xDFFF

instance (h : HexFour) : Decidable h.IsHigh :=
  inferInstanceAs (Decidable (0xD800 ≤ h.number ∧ h.number ≤ 0xDBFF))

instance (h : HexFour) : Decidable h.IsLow :=
  inferInstanceAs (Decidable (0xDC00 ≤ h.number ∧ h.number ≤ 0xDFFF))

end HexFour

/-- The ways in which a character can stand in a string literal. -/
inductive Spells : Char → List UInt8 → Prop
  | plain {c : Char} : c ≠ '"' → c ≠ '\\' → 0x20 ≤ c.toNat → Spells c (String.utf8EncodeChar c)
  | short {c letter : Char} : (letter, c) ∈ shortEscapes → Spells c [byte '\\', byte letter]
  | code (h : HexFour) : ¬h.IsHigh → ¬h.IsLow →
    Spells (Char.ofNat h.number) (byte '\\' :: byte 'u' :: h.bytes)
  | pair (high low : HexFour) : high.IsHigh → low.IsLow →
    Spells (Char.ofNat (0x10000 + (high.number - 0xD800) * 0x400 + (low.number - 0xDC00)))
      (byte '\\' :: byte 'u' :: (high.bytes ++ byte '\\' :: byte 'u' :: low.bytes))

/-- The ways in which characters can stand in a string literal. -/
inductive SpellsText : List Char → List UInt8 → Prop
  | nil : SpellsText [] []
  | cons {c : Char} {cs : List Char} {s t : List UInt8} :
    Spells c s → SpellsText cs t → SpellsText (c :: cs) (s ++ t)

/-! ### Texts -/

/-- The texts of items that follow another one, each after a comma. -/
inductive Separated {α : Type} (R : α → List UInt8 → Prop) : List α → List UInt8 → Prop
  | done {w : List UInt8} : Blank w → Separated R [] w
  | more {a : α} {as : List α} {v w s t : List UInt8} : Blank v → Blank w → R a s →
    Separated R as t → Separated R (a :: as) (v ++ byte ',' :: (w ++ (s ++ t)))

/-- The texts of items in brackets. -/
inductive Enclosed {α : Type} (R : α → List UInt8 → Prop) (opening closing : Char) :
    List α → List UInt8 → Prop
  | empty {w : List UInt8} : Blank w →
    Enclosed R opening closing [] (byte opening :: (w ++ [byte closing]))
  | items {a : α} {as : List α} {w s t : List UInt8} : Blank w → R a s → Separated R as t →
    Enclosed R opening closing (a :: as) (byte opening :: (w ++ (s ++ (t ++ [byte closing]))))

/-- The texts of a field of an object. -/
inductive WritesField (R : Document → List UInt8 → Prop) : String × Document → List UInt8 → Prop
  | mk {key : String} {v : Document} {k w x s : List UInt8} : SpellsText key.toList k → Blank w →
    Blank x → R v s →
    WritesField R (key, v) (byte '"' :: (k ++ byte '"' :: (w ++ byte ':' :: (x ++ s))))

/-- The texts of a document, without white space around it. -/
inductive Writes : Document → List UInt8 → Prop
  | null : Writes .null (['n', 'u', 'l', 'l'].map byte)
  | boolean (b : Bool) : Writes (.boolean b)
    ((if b then ['t', 'r', 'u', 'e'] else ['f', 'a', 'l', 's', 'e']).map byte)
  | number (n : Numeral) : Writes (.number n) n.bytes
  | string {t : String} {s : List UInt8} : SpellsText t.toList s →
    Writes (.string t) (byte '"' :: (s ++ [byte '"']))
  | array {vs : List Document} {s : List UInt8} : Enclosed Writes '[' ']' vs s →
    Writes (.array vs) s
  | object {fs : List (String × Document)} {s : List UInt8} :
    Enclosed (WritesField Writes) '\x7b' '\x7d' fs s → Writes (.object fs) s

/-- The texts of a file that holds a document. -/
def IsText (v : Document) (bytes : List UInt8) : Prop :=
  ∃ w s x, Blank w ∧ Writes v s ∧ Blank x ∧ bytes = w ++ (s ++ x)

theorem Separated.length_le {α : Type} {R : α → List UInt8 → Prop} {as : List α} {t : List UInt8}
    (h : Separated R as t) : as.length ≤ t.length := by
  induction h with
  | done hw => exact Nat.zero_le _
  | more hv hw hs ht ih =>
    simp only [List.length_cons, List.length_append]
    omega

/-- Characters that need no backslash can stand for themselves. -/
theorem SpellsText.plain {cs : List Char}
    (h : cs.all (fun c => c ≠ '"' ∧ c ≠ '\\' ∧ 0x20 ≤ c.toNat) = true) :
    SpellsText cs (Text.Utf8.encode cs) := by
  induction cs with
  | nil => exact .nil
  | cons c cs ih =>
    obtain ⟨hc, hcs⟩ := Bool.and_eq_true_iff.mp h
    obtain ⟨hquote, hbackslash, hcontrol⟩ := of_decide_eq_true hc
    exact .cons (.plain hquote hbackslash hcontrol) (ih hcs)

/-! ### First bytes -/

/-- The bytes with which a text of the document can begin. -/
def Document.Leads : Document → UInt8 → Prop
  | .null, b => b = byte 'n'
  | .boolean true, b => b = byte 't'
  | .boolean false, b => b = byte 'f'
  | .number n, b => if n.negative then b = byte '-' else isDigit b = true
  | .string _, b => b = byte '"'
  | .array _, b => b = byte '['
  | .object _, b => b = byte '\x7b'

variable {v : Document} {b : UInt8} {s : List UInt8}

/-- No text begins with white space or a closing bracket. -/
theorem Document.Leads.ne_closing (h : v.Leads b) : isSpace b = false ∧ b ≠ byte ']' := by
  cases v with
  | boolean c => cases c <;> cases h <;> decide
  | number n =>
    rw [Document.Leads] at h
    split at h
    · subst h
      decide
    · exact ⟨isSpace_of_isDigit h, ne_of_isDigit h (by decide)⟩
  | _ => cases h; decide

/-- Among the kinds of documents that a reader looks for, the first byte tells which it is. -/
theorem Document.Leads.kind (h : v.Leads b) :
    (b = byte '"' → ∃ t, v = .string t) ∧ (b = byte '[' → ∃ vs, v = .array vs) ∧
      (b = byte '\x7b' → ∃ fs, v = .object fs) ∧
      (b = byte '-' ∨ isDigit b = true → ∃ n, v = .number n) := by
  cases v with
  | boolean c =>
    cases c <;> cases h <;>
      exact ⟨nofun, nofun, nofun, fun h => absurd h (by decide)⟩
  | number n =>
    rw [Document.Leads] at h
    split at h
    · subst h
      exact ⟨nofun, nofun, nofun, fun _ => ⟨n, rfl⟩⟩
    · exact ⟨fun hb => absurd hb (ne_of_isDigit h (by decide)),
        fun hb => absurd hb (ne_of_isDigit h (by decide)),
        fun hb => absurd hb (ne_of_isDigit h (by decide)), fun _ => ⟨n, rfl⟩⟩
  | null => cases h; exact ⟨nofun, nofun, nofun, fun h => absurd h (by decide)⟩
  | string t => cases h; exact ⟨fun _ => ⟨t, rfl⟩, nofun, nofun, fun h => absurd h (by decide)⟩
  | array vs => cases h; exact ⟨nofun, fun _ => ⟨vs, rfl⟩, nofun, fun h => absurd h (by decide)⟩
  | object fs => cases h; exact ⟨nofun, nofun, fun _ => ⟨fs, rfl⟩, fun h => absurd h (by decide)⟩

theorem Numeral.exists_unsigned (n : Numeral) :
    ∃ b s, n.unsigned.map byte = b :: s ∧ isDigit b = true := by
  obtain ⟨c, cs, hc, hdigit⟩ := decimal_eq_cons n.whole
  rw [unsigned, hc]
  exact ⟨byte c, _, rfl, isDigit_byte hdigit⟩

/-- The first byte of a text tells the kind of the document. -/
theorem Writes.leads (h : Writes v s) : ∃ b t, s = b :: t ∧ v.Leads b := by
  cases h with
  | null => exact ⟨_, _, rfl, rfl⟩
  | boolean b => cases b <;> exact ⟨_, _, rfl, rfl⟩
  | number n =>
    by_cases hn : n.negative = true
    · refine ⟨byte '-', n.unsigned.map byte, if_pos hn, ?_⟩
      rw [Document.Leads, if_pos hn]
    · obtain ⟨b, t, hb, hdigit⟩ := n.exists_unsigned
      refine ⟨b, t, (if_neg hn).trans hb, ?_⟩
      rw [Document.Leads, if_neg hn]
      exact hdigit
  | string h => exact ⟨_, _, rfl, rfl⟩
  | array h => cases h <;> exact ⟨_, _, rfl, rfl⟩
  | object h => cases h <;> exact ⟨_, _, rfl, rfl⟩

end LeaseKeeper.Json
