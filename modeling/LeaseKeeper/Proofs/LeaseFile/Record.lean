/-
Lease records read back.

* `record?_encode_record` — a written record is read as the lease that a file can hold in its
  place, or refused if the year of its expiry has not four digits;
* `readField_fieldValue`, `readField_expiry` — the same for a field of a record;
* `integer_toInt`, `text?_quotedString`, `expiryOfText_expiryText` — the same for a value.

Design notes: the fields before the expiry are always read, and the expiry is the last one.  So
the reading of a record is one induction on the fields before the expiry, and then one more step.
-/
import LeaseKeeper.LeaseFile.Read
import LeaseKeeper.Proofs.HardwareAddress
import LeaseKeeper.Proofs.Json.Writing
import LeaseKeeper.Proofs.Net.Ipv4
import LeaseKeeper.Proofs.Time.Rfc3339

namespace LeaseKeeper

namespace Lease

/-- Whether a lease file can hold the expiry: its year in UTC has four digits. -/
def IsLegible (l : Lease) : Prop := ∀ t ∈ l.expiry, 0 ≤ t.year ∧ t.year ≤ 9999

instance (l : Lease) : Decidable l.IsLegible :=
  inferInstanceAs (Decidable (∀ t ∈ l.expiry, 0 ≤ t.year ∧ t.year ≤ 9999))

/-- The lease as it comes back from a lease file: an expiry up to the zero time is none. -/
def recorded (l : Lease) : Lease :=
  { l with expiry := l.expiry.filter fun t => LeaseFile.zeroTime < t.seconds }

end Lease

namespace LeaseFile

open Json (byte quotedString EndsNumber Layout)

/-! ### Values -/

theorem text?_blank_quotedString (wanted : Wanted) {w : List UInt8} (hw : Json.Blank w) (t : String)
    (s : List UInt8) :
    text? wanted (w ++ (Text.Utf8.encode (quotedString t) ++ s)) = .ok (t, s) := by
  obtain ⟨rest, hrest, hstring⟩ := Json.string_quotedString t s
  rw [text?, Json.skipSpace_blank hw, hrest, Json.skipSpace_cons (by decide)]
  simp only [if_true, hstring, ofText]

theorem text?_quotedString (wanted : Wanted) (t : String) (s : List UInt8) :
    text? wanted (byte ' ' :: (Text.Utf8.encode (quotedString t) ++ s)) = .ok (t, s) :=
  text?_blank_quotedString wanted (show Json.Blank [byte ' '] by decide) t s

theorem ordinal_toInt (x : Int64) : ordinal (.integer x.toInt) = .ok x := by
  have hlt : x.toInt < 0x8000000000000000 := x.toInt_lt
  rw [ordinal, if_pos hlt, Int64.ofInt_toInt]

/-- The sign of a number is read apart from its digits. -/
theorem integer_bytes (n : Json.Numeral) {w : List UInt8} (hw : Json.Blank w)
    (rest : List UInt8) :
    integer (w ++ (n.bytes ++ rest)) = (do
      let (x, s) ← ofText (Json.number n.negative (n.unsigned.map byte ++ rest))
      return (← ofContent (ordinal x), s)) := by
  rw [integer, Json.skipSpace_blank hw, Json.Numeral.bytes]
  by_cases hn : n.negative = true
  · rw [if_pos hn, List.cons_append, Json.skipSpace_cons (by decide), hn]
    rfl
  · obtain ⟨b, t, hb, hdigit⟩ := n.exists_unsigned
    have hminus : b ≠ byte '-' := Json.ne_of_isDigit hdigit (by decide)
    rw [if_neg hn, hb, List.cons_append, Json.skipSpace_cons (Json.isSpace_of_isDigit hdigit),
      Bool.eq_false_iff.mpr hn]
    simp only [if_neg hminus, if_pos hdigit]

/-- An ordinal reads back from its numeral. -/
theorem integer_toInt (x : Int64) {s : List UInt8} (hs : EndsNumber s) :
    integer (byte ' ' :: (Text.Utf8.encode (Text.integer x.toInt) ++ s)) = .ok (x, s) := by
  have hspace : Json.Blank [byte ' '] := by decide
  rw [Json.encode_integer, ← List.singleton_append, integer_bytes _ hspace,
    Json.number_unsigned _ _ hs, Json.number_ofInt x.le_toInt x.toInt_lt]
  simp only [Except.map, ofText, bind, Except.bind, ordinal_toInt, ofContent, pure, Except.pure]

theorem addressOfText_toText (a : Ipv4) : addressOfText a.toText = .ok a := by
  rw [addressOfText, Ipv4.toText, String.toList_ofList, Ipv4.ofText?_toChars]

theorem hardwareAddressOfText_toText (a : HardwareAddress) :
    hardwareAddressOfText a.toText = .ok a := by
  rw [hardwareAddressOfText, HardwareAddress.parse_toText]

def illegible : Misfit := .badExpiry .invalidCharacter

/-- The expiry of a lease reads back as far as a file can hold it. -/
theorem expiryOfText_expiryText (l : Lease) :
    expiryOfText (String.ofList (expiryText l.expiry)) =
      if l.IsLegible then .ok l.recorded.expiry else .error illegible := by
  rw [expiryOfText, String.toList_ofList]
  cases h : l.expiry with
  | none =>
    have hlegible : l.IsLegible := by
      intro t ht
      rw [h] at ht
      cases ht
    -- No expiry is written as the zero time, which reads back as no expiry.
    have hread : Rfc3339.read (Rfc3339.write (.ofSeconds zeroTime)) = .ok (.ofSeconds zeroTime) :=
      Rfc3339.read_write (by decide) (by decide)
    have hzero : (Instant.ofSeconds zeroTime).seconds ≤ zeroTime := Int.le_refl _
    rw [expiryText, hread, if_pos hlegible, Lease.recorded, h]
    simp only [if_pos hzero, Option.filter_none]
  | some t =>
    rw [expiryText]
    by_cases hyear : 0 ≤ t.year ∧ t.year ≤ 9999
    · have hlegible : l.IsLegible := by
        intro u hu
        rw [h] at hu
        cases hu
        exact hyear
      rw [Rfc3339.read_write hyear.1 hyear.2, if_pos hlegible, Lease.recorded, h]
      by_cases hzero : t.seconds ≤ zeroTime
      · simp [Option.filter, hzero]
      · simp [Option.filter, hzero, Int.not_le.mp hzero]
    · have hlegible : ¬l.IsLegible := fun hl => hyear (hl t h)
      rw [Rfc3339.read_write_of_year (by omega), if_neg hlegible]
      rfl

/-! ### Fields -/

def fieldValue (l : Lease) : Field → Json.Value
  | .num => .integer l.ordinal.toInt
  | .addr => .string l.address.toText
  | .hardwareAddr => .string l.hardwareAddress.toText
  | .hostname => .string l.hostname
  | .hostnameOverride => .string l.hostnameOverride
  | .expiry => .string (String.ofList (expiryText l.expiry))

theorem record_eq (l : Lease) :
    record l = .object (Field.all.map fun f => (f.key, fieldValue l f)) :=
  rfl

/-- The draft with a further field of a lease. -/
def Draft.fill (l : Lease) (d : Draft) : Field → Draft
  | .num => { d with num := some l.ordinal }
  | .addr => { d with addr := some l.address }
  | .hardwareAddr => { d with hardwareAddr := some l.hardwareAddress }
  | .hostname => { d with hostname := some l.hostname }
  | .hostnameOverride => { d with hostnameOverride := some l.hostnameOverride }
  | .expiry => { d with expiry := some l.recorded.expiry }

theorem Draft.has_fill (l : Lease) (d : Draft) (f g : Field) :
    (d.fill l f).has g = (d.has g || f == g) := by
  cases f <;> cases g <;> simp [Draft.fill, Draft.has]

theorem Draft.finish_fill (l : Lease) :
    (Field.all.foldl (Draft.fill l) .empty).finish = .ok l.recorded :=
  rfl

theorem readField_fieldValue (l : Lease) (d : Draft) {f : Field} (hf : f ≠ .expiry)
    (layout : Layout) (depth : Nat) {s : List UInt8} (hs : EndsNumber s) :
    d.readField f (byte ' ' ::
      (Text.Utf8.encode ((fieldValue l f).writeAt layout depth) ++ s)) = .ok (d.fill l f, s) := by
  cases f with
  | num =>
    simp only [fieldValue, Json.Value.writeAt, Draft.readField, integer_toInt l.ordinal hs, bind,
      Except.bind, pure, Except.pure, Draft.fill]
  | addr =>
    simp only [fieldValue, Json.Value.writeAt, Draft.readField, text?_quotedString,
      addressOfText_toText, ofContent, bind, Except.bind, pure, Except.pure, Draft.fill]
  | hardwareAddr =>
    simp only [fieldValue, Json.Value.writeAt, Draft.readField, text?_quotedString,
      hardwareAddressOfText_toText, ofContent, bind, Except.bind, pure, Except.pure, Draft.fill]
  | hostname =>
    simp only [fieldValue, Json.Value.writeAt, Draft.readField, text?_quotedString, bind,
      Except.bind, pure, Except.pure, Draft.fill]
  | hostnameOverride =>
    simp only [fieldValue, Json.Value.writeAt, Draft.readField, text?_quotedString, bind,
      Except.bind, pure, Except.pure, Draft.fill]
  | expiry => exact absurd rfl hf

/-- The expiry reads back unless it is illegible. -/
theorem readField_expiry (l : Lease) (d : Draft) (layout : Layout) (depth : Nat)
    (s : List UInt8) :
    d.readField .expiry (byte ' ' ::
      (Text.Utf8.encode ((fieldValue l .expiry).writeAt layout depth) ++ s)) =
        if l.IsLegible then .ok (d.fill l .expiry, s) else .error (.content illegible) := by
  simp only [fieldValue, Json.Value.writeAt, Draft.readField, text?_quotedString,
    expiryOfText_expiryText, bind, Except.bind, pure, Except.pure]
  by_cases hl : l.IsLegible
  · simp only [if_pos hl, ofContent, Draft.fill]
  · simp only [if_neg hl, ofContent]

/-! ### Records -/

theorem ofKey?_key (f : Field) : Field.ofKey? f.key = some f := by
  cases f <;> decide

/-- Reading goes on after a field that has not been read yet. -/
theorem fieldsWithin_field {d : Draft} {f : Field} (hd : d.has f = false) {isFirst : Bool}
    {s after : List UInt8} (hkey : Json.nextKey isFirst s = .ok (some f.key, byte ':' :: after))
    (fuel : Nat) :
    fieldsWithin (fuel + 1) d isFirst s =
      (d.readField f after).bind fun (d, s) => fieldsWithin fuel d false s := by
  have hcolon : Json.colon (byte ':' :: after) = .ok after := Json.colon_blank Json.blank_nil after
  rw [fieldsWithin, hkey]
  simp only [ofText, bind, Except.bind, ofKey?_key, hd, Bool.false_eq_true, if_false,
    hcolon]

theorem fieldsWithin_end (d : Draft) (isFirst : Bool) (layout : Layout) (depth : Nat)
    (s : List UInt8) (fuel : Nat) :
    fieldsWithin (fuel + 1) d isFirst
      (Text.Utf8.encode (layout.lineBreak depth) ++ byte '\x7d' :: s) = .ok (d, s) := by
  rw [fieldsWithin, Json.nextKey_end (Json.blank_lineBreak layout depth)]
  rfl

/-- What is written of a field after its key and the colon. -/
def valueBytes (l : Lease) (depth : Nat) (f : Field) : List UInt8 :=
  byte ' ' :: Text.Utf8.encode ((fieldValue l f).writeAt .indented depth)

def fieldsBytes (l : Lease) (depth : Nat) (fs : List Field) : List UInt8 :=
  Text.Utf8.encode
    (Json.Value.writeFields .indented depth (fs.map fun f => (f.key, fieldValue l f)))

theorem fieldsBytes_cons (l : Lease) (depth : Nat) (f : Field) (fs : List Field) :
    fieldsBytes l depth (f :: fs) =
      byte ',' :: (Text.Utf8.encode (Layout.indented.lineBreak depth) ++
        (Text.Utf8.encode (quotedString f.key) ++
          (byte ':' :: (valueBytes l depth f ++ fieldsBytes l depth fs)))) := by
  simp only [fieldsBytes, valueBytes, List.map_cons, Json.Value.writeFields]
  rw [Json.encode_cons_ascii (by decide)]
  simp only [Text.Utf8.encode_append, List.append_assoc]
  rfl

theorem endsNumber_fieldsBytes (l : Lease) (depth : Nat) (fs : List Field) {s : List UInt8}
    (hs : EndsNumber s) : EndsNumber (fieldsBytes l depth fs ++ s) := by
  cases fs with
  | nil => exact hs
  | cons f fs =>
    intro b t h
    rw [fieldsBytes_cons] at h
    cases h
    decide

theorem fieldsWithin_fieldsBytes (l : Lease) (depth : Nat) {fs : List Field}
    (hfs : ∀ f ∈ fs, f ≠ .expiry) (hnodup : fs.Nodup) {d : Draft}
    (hd : ∀ f ∈ fs, d.has f = false) {s : List UInt8} (hs : EndsNumber s) (fuel : Nat) :
    fieldsWithin (fuel + fs.length) d false (fieldsBytes l depth fs ++ s) =
      fieldsWithin fuel (fs.foldl (Draft.fill l) d) false s := by
  induction fs generalizing d with
  | nil => rfl
  | cons f fs ih =>
    obtain ⟨hf, hnodup⟩ := List.nodup_cons.mp hnodup
    -- A number ends at the comma, or at the line break after the last field.
    have hrest := endsNumber_fieldsBytes l depth fs hs
    have hvalue := readField_fieldValue l d (hfs f List.mem_cons_self) .indented depth hrest
    have hstep := ih (fun g hg => hfs g (List.mem_cons_of_mem f hg)) hnodup (d := d.fill l f) (by
      intro g hg
      have hne : f ≠ g := fun h => hf (h ▸ hg)
      rw [Draft.has_fill, hd g (List.mem_cons_of_mem f hg), beq_false_of_ne hne]
      rfl)
    rw [fieldsBytes_cons, List.length_cons, ← Nat.add_assoc]
    simp only [List.cons_append, List.append_assoc]
    rw [fieldsWithin_field (hd f List.mem_cons_self)
      (Json.nextKey_quoted_next f.key .indented depth _)]
    rw [valueBytes, List.cons_append, hvalue]
    exact hstep

theorem length_le_fieldsBytes (l : Lease) (depth : Nat) (fs : List Field) :
    fs.length ≤ (fieldsBytes l depth fs).length := by
  induction fs with
  | nil => exact Nat.zero_le _
  | cons f fs ih =>
    rw [fieldsBytes_cons]
    simp only [List.length_cons, List.length_append]
    omega

/-- The fields between the first one and the expiry. -/
def middleFields : List Field := [.addr, .hardwareAddr, .hostname, .hostnameOverride]

/-- What is written of a record after its opening brace. -/
def bodyBytes (l : Lease) (depth : Nat) : List UInt8 :=
  Text.Utf8.encode (Layout.indented.lineBreak (depth + 1)) ++
    (Text.Utf8.encode (quotedString Field.num.key) ++
      (byte ':' :: (valueBytes l (depth + 1) .num ++
        (fieldsBytes l (depth + 1) middleFields ++ (fieldsBytes l (depth + 1) [.expiry] ++
          (Text.Utf8.encode (Layout.indented.lineBreak depth) ++ [byte '\x7d']))))))

theorem le_length_bodyBytes (l : Lease) (depth : Nat) : 6 ≤ (bodyBytes l depth).length := by
  have hmiddle := length_le_fieldsBytes l (depth + 1) middleFields
  have hexpiry := length_le_fieldsBytes l (depth + 1) [.expiry]
  simp only [middleFields, List.length_cons, List.length_nil] at hmiddle hexpiry
  simp only [bodyBytes, List.length_append, List.length_cons, middleFields]
  omega

theorem encode_record (l : Lease) (depth : Nat) :
    Text.Utf8.encode ((record l).writeAt .indented depth) = byte '\x7b' :: bodyBytes l depth := by
  have hfields : fieldsBytes l (depth + 1) (middleFields ++ [.expiry]) =
      fieldsBytes l (depth + 1) middleFields ++ fieldsBytes l (depth + 1) [.expiry] := by
    simp only [middleFields, List.cons_append, List.nil_append, fieldsBytes_cons, List.append_assoc]
    rfl
  rw [bodyBytes, ← List.append_assoc (fieldsBytes l (depth + 1) middleFields), ← hfields]
  rw [record_eq, Field.all, List.map_cons, Json.Value.writeAt]
  rw [Json.encode_cons_ascii (by decide)]
  simp only [Text.Utf8.encode_append, List.append_assoc]
  rfl

theorem endsNumber_lineBreak (depth : Nat) (s : List UInt8) :
    EndsNumber (Text.Utf8.encode (Layout.indented.lineBreak depth) ++ s) := by
  intro b t h
  rw [Layout.lineBreak, Json.encode_cons_ascii (by decide)] at h
  cases h
  decide

theorem has_fill_num (l : Lease) : ∀ f ∈ middleFields, (Draft.empty.fill l .num).has f = false := by
  intro f hf
  simp only [middleFields, List.mem_cons, List.not_mem_nil, or_false] at hf
  rcases hf with rfl | rfl | rfl | rfl <;> rfl

theorem fieldsWithin_bodyBytes (l : Lease) (depth : Nat) (s : List UInt8) (fuel : Nat) :
    fieldsWithin (fuel + 7) .empty true (bodyBytes l depth ++ s) =
      if l.IsLegible then .ok (Field.all.foldl (Draft.fill l) .empty, s)
      else .error (.content illegible) := by
  have hend := endsNumber_lineBreak depth (byte '\x7d' :: s)
  have hexpiry := endsNumber_fieldsBytes l (depth + 1) [.expiry] hend
  have hmiddle := endsNumber_fieldsBytes l (depth + 1) middleFields hexpiry
  simp only [bodyBytes, List.append_assoc, List.cons_append, List.nil_append]
  -- the first field, which has no comma before it
  rw [fieldsWithin_field rfl (Json.nextKey_quoted_first Field.num.key .indented (depth + 1) _)]
  rw [valueBytes, List.cons_append,
    readField_fieldValue l .empty (by decide) .indented (depth + 1) hmiddle]
  -- those in the middle, for each of which one step of the fuel is left
  show fieldsWithin (fuel + 2 + middleFields.length) _ false _ = _
  rw [fieldsWithin_fieldsBytes l (depth + 1) (by decide) (by decide) (has_fill_num l) hexpiry]
  -- the expiry, which decides
  rw [fieldsBytes_cons]
  simp only [List.append_assoc, List.cons_append]
  rw [fieldsWithin_field rfl (Json.nextKey_quoted_next Field.expiry.key .indented (depth + 1) _)]
  rw [valueBytes, List.cons_append, readField_expiry]
  by_cases hl : l.IsLegible
  · rw [if_pos hl, if_pos hl]
    exact fieldsWithin_end _ false .indented depth s fuel
  · rw [if_neg hl, if_neg hl]
    rfl

theorem record?_encode_record (l : Lease) (depth : Nat) (s : List UInt8) :
    record? (Text.Utf8.encode ((record l).writeAt .indented depth) ++ s) =
      if l.IsLegible then .ok (l.recorded, s) else .error (.content illegible) := by
  have hlength := le_length_bodyBytes l depth
  -- One step for each of the six fields, and one for the closing brace.
  obtain ⟨fuel, hfuel⟩ : ∃ fuel, (bodyBytes l depth ++ s).length + 1 = fuel + 7 :=
    ⟨(bodyBytes l depth ++ s).length - 6, by rw [List.length_append]; omega⟩
  rw [encode_record, List.cons_append, record?, Json.skipSpace_cons (by decide)]
  simp only [if_true, hfuel, fieldsWithin_bodyBytes, bind, Except.bind]
  by_cases hl : l.IsLegible
  · simp only [if_pos hl, Draft.finish_fill, ofContent, pure, Except.pure]
  · simp only [if_neg hl]

end LeaseFile

end LeaseKeeper
