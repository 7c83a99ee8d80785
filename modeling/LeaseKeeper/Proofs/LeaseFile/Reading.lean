/-
A lease file is read as the document that it is a text of.

* `text?_writes`, `integer_writes`, `readField_writes` — values that are known to follow;
* `fieldsWithin_separated`, `elements_separated`, `record?_writes` — records of both forms;
* `recordsWithin_separated`, `decode_isText` — whole files;
* `decode_format` — a file is accepted exactly if its document is in the format of lease files.

Design notes: each lemma is about a text that goes on in any way.  A reader either takes the whole
text, and then what it returns is what the document stands for, or it fails; so a lemma says what
`Except.toOption` of its result is.
-/
import LeaseKeeper.Proofs.Json.Punctuation
import LeaseKeeper.Proofs.Json.Skipping
import LeaseKeeper.Proofs.LeaseFile.Format

namespace LeaseKeeper.LeaseFile

open Json (Scanned byte Blank Document Enclosed EndsNumber Separated Writes WritesField)

variable {ε α β : Type} {v : Document} {b : UInt8} {s t w after rest : List UInt8}

theorem toOption_ofText (x : Except Json.Fault α) : (ofText x).toOption = x.toOption := by
  cases x <;> rfl

/-! ### Values -/

theorem text?_writes (wanted : Wanted) (hw : Blank w) (h : Writes v s) (rest : List UInt8) :
    (text? wanted (w ++ (s ++ rest))).toOption = (string? v).map fun t => (t, rest) := by
  cases hv : string? v with
  | none =>
    obtain ⟨b, t, rfl, hb⟩ := h.leads
    have hquote : b ≠ byte '"' := by
      intro heq
      obtain ⟨t, rfl⟩ := hb.kind.1 heq
      cases hv
    rw [text?, Json.skipSpace_blank hw, List.cons_append, Json.skipSpace_cons hb.ne_closing.1]
    simp only [if_neg hquote]
    rfl
  | some t =>
    cases h with
    | string hs =>
      cases hv
      rw [text?, Json.skipSpace_blank hw, List.cons_append, Json.skipSpace_cons (by decide),
        List.append_assoc]
      simp only [if_true, List.singleton_append, Json.string_spellsText hs]
      rfl
    | _ => cases hv

theorem integer_writes (hw : Blank w) (h : Writes v s) (hrest : EndsNumber rest) :
    (integer (w ++ (s ++ rest))).toOption =
      ((number? v).bind ordinalOf?).map fun x => (x, rest) := by
  cases hv : number? v with
  | none =>
    obtain ⟨b, t, rfl, hb⟩ := h.leads
    have hkind : ¬(b = byte '-' ∨ Json.isDigit b = true) := by
      intro heq
      obtain ⟨n, rfl⟩ := hb.kind.2.2.2 heq
      cases hv
    obtain ⟨hminus, hdigit⟩ := not_or.mp hkind
    rw [integer, Json.skipSpace_blank hw, List.cons_append, Json.skipSpace_cons hb.ne_closing.1]
    simp only [if_neg hminus, if_neg hdigit]
    rfl
  | some n =>
    cases h with
    | number n =>
      cases hv
      rw [integer_bytes n hw, Json.number_unsigned _ n hrest, Option.bind_some, ordinalOf?]
      cases n.literal.number n.negative with
      | error e => rfl
      | ok x =>
        show (ofContent (ordinal x) >>= fun y => .ok (y, rest)).toOption =
          (ordinal x).toOption.map fun y => (y, rest)
        cases ordinal x <;> rfl
    | _ => cases hv

/-- A text that has to stand for something else. -/
theorem meaning_writes (wanted : Wanted) (hw : Blank w) (h : Writes v s) (rest : List UInt8)
    (meaning : String → Except Misfit α) (k : α → Draft) :
    Except.toOption (do
      let (t, s) ← text? wanted (w ++ (s ++ rest))
      return (k (← ofContent (meaning t)), s)) =
        ((string? v).bind fun t => (meaning t).toOption).map fun x => (k x, rest) := by
  rw [toOption_bind, text?_writes wanted hw h rest]
  cases string? v with
  | none => rfl
  | some t =>
    show (ofContent (meaning t) >>= fun x => .ok (k x, rest)).toOption =
      (meaning t).toOption.map fun x => (k x, rest)
    cases meaning t <;> rfl

theorem readField_writes (d : Draft) (f : Field) (hw : Blank w) (h : Writes v s)
    (hrest : EndsNumber rest) :
    (d.readField f (w ++ (s ++ rest))).toOption =
      (f.value? v).map fun x => (d.set f x, rest) := by
  have htext := text?_writes .text hw h rest
  cases f with
  | num =>
    rw [Draft.readField, toOption_bind, integer_writes hw h hrest, Field.value?]
    cases (number? v).bind ordinalOf? <;> rfl
  | addr => exact meaning_writes .ipv4 hw h rest addressOfText _
  | hardwareAddr => exact meaning_writes .text hw h rest hardwareAddressOfText _
  | hostname =>
    rw [Draft.readField, toOption_bind, htext, Field.value?]
    cases string? v <;> rfl
  | hostnameOverride =>
    rw [Draft.readField, toOption_bind, htext, Field.value?]
    cases string? v <;> rfl
  | expiry => exact meaning_writes .text hw h rest expiryOfText _

/-! ### Objects -/

/-- A field is its key and its value, with what stands between them. -/
theorem exists_key {f : String × Document} (h : WritesField Writes f s) :
    ∃ k w x u, s = byte '"' :: k ∧ Blank w ∧ Blank x ∧ Writes f.2 u ∧
      ∀ rest, Json.string (k ++ rest) = .ok (f.1, w ++ byte ':' :: (x ++ (u ++ rest))) := by
  cases h with
  | @mk key v k w x u hk hw hx hu =>
    refine ⟨_, w, x, u, rfl, hw, hx, hu, fun rest => ?_⟩
    simp only [List.append_assoc, List.cons_append]
    exact Json.string_spellsText hk _

/-- Reading goes on after a field, unless it is not the first one with its key. -/
theorem fieldsWithin_cons {f : String × Document} {fields : List (String × Document)}
    {isFirst : Bool} {x : List UInt8} {fuel : Nat}
    (hkey : Json.nextKey isFirst t = .ok (some f.1, w ++ byte ':' :: (x ++ (s ++ after))))
    (hw : Blank w) (hx : Blank x) (h : Writes f.2 s) (hafter : EndsNumber after)
    (ih : ∀ d, (fieldsWithin fuel d false after).toOption =
      (collect d fields).map fun e => (e, rest)) (d : Draft) :
    (fieldsWithin (fuel + 1) d isFirst t).toOption =
      (collect d (f :: fields)).map fun e => (e, rest) := by
  have hcolon := Json.colon_blank hw (x ++ (s ++ after))
  rw [fieldsWithin, hkey, collect]
  cases hf : Field.ofKey? f.1 with
  | none =>
    have hskip := Json.skipValue_writes h hx hafter
    simp only [ofText, bind, Except.bind, hf, hcolon, hskip]
    exact ih d
  | some g =>
    cases hhas : d.has g with
    | true =>
      simp only [ofText, bind, Except.bind, hf, hhas, if_true]
      rfl
    | false =>
      simp only [ofText, bind, Except.bind, hf, hhas, Bool.false_eq_true, if_false, hcolon]
      show (d.readField g (x ++ (s ++ after)) >>=
        fun r => fieldsWithin fuel r.1 false r.2).toOption = _
      rw [toOption_bind, readField_writes d g hx h hafter]
      cases g.value? f.2 with
      | none => rfl
      | some y => exact ih (d.set g y)

theorem fieldsWithin_separated {fields : List (String × Document)}
    (h : Separated (WritesField Writes) fields t) {fuel : Nat} (hfuel : fields.length < fuel)
    (rest : List UInt8) (d : Draft) :
    (fieldsWithin fuel d false (t ++ byte '\x7d' :: rest)).toOption =
      (collect d fields).map fun e => (e, rest) := by
  induction h generalizing d fuel with
  | done hw =>
    obtain ⟨fuel, rfl⟩ : ∃ k, fuel = k + 1 := ⟨fuel - 1, by simp at hfuel; omega⟩
    rw [fieldsWithin, Json.nextKey_end hw]
    rfl
  | @more f fields y z s t hy hz hs ht ih =>
    rw [List.length_cons] at hfuel
    obtain ⟨fuel, rfl⟩ : ∃ k, fuel = k + 1 := ⟨fuel - 1, by omega⟩
    obtain ⟨k, w, x, u, rfl, hw, hx, hu, hstring⟩ := exists_key hs
    simp only [List.append_assoc, List.cons_append]
    exact fieldsWithin_cons (Json.nextKey_next hy hz (hstring _)) hw hx hu
      (ht.endsNumber (.inr rfl)) (ih (by omega)) d

theorem record?_object {fields : List (String × Document)}
    (h : Enclosed (WritesField Writes) '\x7b' '\x7d' fields s) (rest : List UInt8) :
    (record? (s ++ rest)).toOption = (leaseOf? fields).map fun l => (l, rest) := by
  have hrecord (body : List UInt8) : record? (byte '\x7b' :: body) =
      fieldsWithin (body.length + 1) .empty true body >>=
        fun r => ofContent r.1.finish >>= fun l => .ok (l, r.2) := by
    rw [record?, Json.skipSpace_cons (by decide)]
    rfl
  have hfields : ∃ body, s ++ rest = byte '\x7b' :: body ∧
      (fieldsWithin (body.length + 1) .empty true body).toOption =
        (collect .empty fields).map fun e => (e, rest) := by
    cases h with
    | @empty w hw =>
      refine ⟨w ++ byte '\x7d' :: rest, by simp, ?_⟩
      rw [fieldsWithin, Json.nextKey_end hw]
      rfl
    | @items f fields z s t hz hs ht =>
      obtain ⟨k, w, x, u, rfl, hw, hx, hu, hstring⟩ := exists_key hs
      have hlength := ht.length_le
      refine ⟨z ++ byte '"' :: (k ++ (t ++ byte '\x7d' :: rest)), by simp, ?_⟩
      refine fieldsWithin_cons (Json.nextKey_first hz (hstring _)) hw hx hu
        (ht.endsNumber (.inr rfl)) (fieldsWithin_separated ht ?_ rest) .empty
      simp only [List.length_append, List.length_cons]
      omega
  obtain ⟨body, hbody, hfields⟩ := hfields
  rw [hbody, hrecord, toOption_bind, hfields, leaseOf?]
  cases collect .empty fields with
  | none => rfl
  | some d =>
    show (ofContent d.finish >>= fun l => .ok (l, rest)).toOption =
      d.finish.toOption.map fun l => (l, rest)
    cases d.finish <;> rfl

/-! ### Lists -/

theorem nextElement_writes_first (hw : Blank w) (h : Writes v s) (rest : List UInt8) :
    Json.nextElement true (w ++ (s ++ rest)) = .ok (some (s ++ rest)) := by
  obtain ⟨b, t, rfl, hb⟩ := h.leads
  exact Json.nextElement_first hw hb.ne_closing.1 hb.ne_closing.2 (t ++ rest)

theorem nextElement_writes_next {x : List UInt8} (hx : Blank x) (hw : Blank w) (h : Writes v s)
    (rest : List UInt8) :
    Json.nextElement false (x ++ byte ',' :: (w ++ (s ++ rest))) = .ok (some (s ++ rest)) := by
  obtain ⟨b, t, rfl, hb⟩ := h.leads
  exact Json.nextElement_next hx hw hb.ne_closing.1 hb.ne_closing.2 (t ++ rest)

/-- What is left to do of a list once its values are read. -/
def finishList (r : Scanned Draft) : Except Error (Scanned Lease) := do
  let l ← ofContent r.1.finish
  return (l, ← ofText (Json.endList r.2))

/-- The lease that a list holds if it has values for the given fields, of which those at the end may
be missing if they are not required. -/
def listed (d : Draft) (fs : List Field) (vs : List Document) : Option Lease :=
  if vs.length ≤ fs.length ∧ ∀ f ∈ fs.drop vs.length, f.isRequired = false then
    (collect d ((fs.map Field.key).zip vs)).bind fun d => d.finish.toOption
  else none

theorem listed_cons {d : Draft} {f : Field} (hnew : d.has f = false) (fs : List Field)
    (v : Document) (vs : List Document) :
    listed d (f :: fs) (v :: vs) = (f.value? v).bind fun x => listed (d.set f x) fs vs := by
  simp only [listed, List.length_cons, Nat.succ_le_succ_iff, List.drop_succ_cons, List.map_cons,
    List.zip_cons_cons, collect, ofKey?_key, hnew, Bool.false_eq_true, if_false]
  cases f.value? v with
  | none => simp
  | some x => rfl

theorem finishList_end (d : Draft) (hw : Blank w) (rest : List UInt8) :
    (finishList (d, w ++ byte ']' :: rest)).toOption =
      d.finish.toOption.map fun l => (l, rest) := by
  rw [finishList, Json.endList_blank hw]
  cases d.finish <;> rfl

/-- A list that is too long is refused at the comma. -/
theorem finishList_comma (d : Draft) (hw : Blank w) (rest : List UInt8) :
    (finishList (d, w ++ byte ',' :: rest)).toOption = none := by
  have hend : (Json.endList (w ++ byte ',' :: rest)).toOption = none := by
    rw [Json.endList, Json.skipSpace_blank hw, Json.skipSpace_cons (by decide)]
    simp only [if_true]
    rw [if_neg (by decide)]
    split <;> rfl
  rw [finishList, toOption_bind]
  cases (ofContent d.finish).toOption with
  | none => rfl
  | some l =>
    show (ofText (Json.endList (w ++ byte ',' :: rest)) >>= fun s => .ok (l, s)).toOption = none
    rw [toOption_bind, toOption_ofText, hend]
    rfl

theorem elements_cons {d : Draft} {count : Nat} {f : Field} {fs : List Field} {vs : List Document}
    (hnext : Json.nextElement (count == 0) t = .ok (some (s ++ after))) (h : Writes v s)
    (hafter : EndsNumber after) (hnew : d.has f = false)
    (ih : ∀ x, (elements (d.set f x) (count + 1) fs after >>= finishList).toOption =
      (listed (d.set f x) fs vs).map fun l => (l, rest)) :
    (elements d count (f :: fs) t >>= finishList).toOption =
      (listed d (f :: fs) (v :: vs)).map fun l => (l, rest) := by
  have hstep : elements d count (f :: fs) t =
      d.readField f (s ++ after) >>= fun r => elements r.1 (count + 1) fs r.2 := by
    rw [elements, hnext]
    rfl
  have hfield := readField_writes d f Json.blank_nil h hafter
  rw [List.nil_append] at hfield
  rw [hstep, bind_assoc, toOption_bind, hfield, listed_cons hnew]
  cases f.value? v with
  | none => rfl
  | some x => exact ih x

theorem elements_end (d : Draft) (count : Nat) (fs : List Field) (hw : Blank w)
    (rest : List UInt8) :
    (elements d count fs (w ++ byte ']' :: rest) >>= finishList).toOption =
      (listed d fs []).map fun l => (l, rest) := by
  have hlisted : listed d fs [] =
      if ∀ f ∈ fs, f.isRequired = false then d.finish.toOption else none := by
    simp [listed, collect]
  rw [hlisted]
  cases fs with
  | nil =>
    rw [if_pos (fun f hf => absurd hf List.not_mem_nil)]
    exact finishList_end d hw rest
  | cons f fs =>
    rw [elements, Json.nextElement_end hw]
    cases hfind : (f :: fs).findIdx? Field.isRequired with
    | none =>
      rw [if_pos (List.findIdx?_eq_none_iff.mp hfind)]
      simp only [ofText, bind, Except.bind]
      exact finishList_end d hw rest
    | some i =>
      have hrequired : ¬∀ g ∈ f :: fs, g.isRequired = false := by
        intro h
        rw [List.findIdx?_eq_none_iff.mpr h] at hfind
        cases hfind
      rw [if_neg hrequired]
      simp only [ofText, bind, Except.bind]
      rfl

theorem elements_separated {vs : List Document} (h : Separated Writes vs t) {fs : List Field}
    (hnodup : fs.Nodup) {d : Draft} (hnew : ∀ f ∈ fs, d.has f = false) (count : Nat)
    (rest : List UInt8) :
    (elements d (count + 1) fs (t ++ byte ']' :: rest) >>= finishList).toOption =
      (listed d fs vs).map fun l => (l, rest) := by
  induction h generalizing fs d count with
  | done hw => exact elements_end d (count + 1) fs hw rest
  | @more v vs x w s t hx hw hs ht ih =>
    simp only [List.append_assoc, List.cons_append]
    cases fs with
    | nil => exact finishList_comma d hx _
    | cons f fs =>
      obtain ⟨hf, hnodup⟩ := List.nodup_cons.mp hnodup
      refine elements_cons (nextElement_writes_next hx hw hs _) hs (ht.endsNumber (.inl rfl))
        (hnew f List.mem_cons_self)
        fun y => ih hnodup ?_ (count + 1)
      intro g hg
      have hne : g ≠ f := fun heq => hf (heq ▸ hg)
      rw [Draft.has_eq, Draft.get?_set_of_ne hne, ← Draft.has_eq]
      exact hnew g (List.mem_cons_of_mem f hg)

theorem listed_all (vs : List Document) : listed .empty Field.all vs = lease? (.array vs) := by
  have hlength : (vs.length ≤ Field.all.length ∧
      ∀ f ∈ Field.all.drop vs.length, f.isRequired = false) ↔ 3 ≤ vs.length ∧ vs.length ≤ 6 := by
    have hall : ∀ k ≤ 6, (∀ f ∈ Field.all.drop k, f.isRequired = false) ↔ 3 ≤ k := by decide
    constructor
    · rintro ⟨hmax, hrequired⟩
      exact ⟨(hall _ hmax).mp hrequired, hmax⟩
    · rintro ⟨hmin, hmax⟩
      exact ⟨hmax, (hall _ hmax).mpr hmin⟩
  rw [listed, lease?, declared, leaseOf?]
  simp only [hlength]

theorem record?_array {vs : List Document} (h : Enclosed Writes '[' ']' vs s) (rest : List UInt8) :
    (record? (s ++ rest)).toOption = (lease? (.array vs)).map fun l => (l, rest) := by
  have hrecord (body : List UInt8) :
      record? (byte '[' :: body) = elements .empty 0 Field.all body >>= finishList := by
    rw [record?, Json.skipSpace_cons (by decide)]
    rfl
  rw [← listed_all]
  cases h with
  | @empty w hw =>
    rw [List.cons_append, hrecord, List.append_assoc]
    exact elements_end .empty 0 Field.all hw rest
  | @items v vs w s t hw hs ht =>
    rw [List.cons_append, hrecord]
    simp only [List.append_assoc, List.cons_append, List.nil_append]
    refine elements_cons (nextElement_writes_first hw hs _) hs (ht.endsNumber (.inl rfl)) rfl
      fun y => elements_separated ht (by decide) ?_ 0 rest
    intro f hf
    have hne : f ≠ .num := by
      rintro rfl
      exact absurd hf (by decide)
    rw [Draft.has_eq, Draft.get?_set_of_ne hne, Draft.get?_empty]
    rfl

theorem record?_writes (h : Writes v s) (rest : List UInt8) :
    (record? (s ++ rest)).toOption = (lease? v).map fun l => (l, rest) := by
  have hleads := h.leads
  cases h with
  | array h => exact record?_array h rest
  | object h => exact record?_object h rest
  | _ =>
    obtain ⟨b, t, hb, hlead⟩ := hleads
    have hlist : b ≠ byte '[' := by
      intro heq
      obtain ⟨vs, hvs⟩ := hlead.kind.2.1 heq
      cases hvs
    have hobject : b ≠ byte '\x7b' := by
      intro heq
      obtain ⟨fs, hfs⟩ := hlead.kind.2.2.1 heq
      cases hfs
    rw [hb, List.cons_append, record?, Json.skipSpace_cons hlead.ne_closing.1]
    simp only [if_neg hobject, if_neg hlist]
    rfl

/-! ### Files -/

theorem recordsWithin_cons {isFirst : Bool} {vs : List Document} {fuel : Nat}
    (hnext : Json.nextElement isFirst t = .ok (some (s ++ after))) (h : Writes v s)
    (ih : (recordsWithin fuel false after).toOption = (vs.mapM lease?).map fun ls => (ls, rest)) :
    (recordsWithin (fuel + 1) isFirst t).toOption =
      ((v :: vs).mapM lease?).map fun ls => (ls, rest) := by
  have hstep : recordsWithin (fuel + 1) isFirst t = record? (s ++ after) >>=
      fun r => recordsWithin fuel false r.2 >>= fun q => .ok (r.1 :: q.1, q.2) := by
    rw [recordsWithin, hnext]
    rfl
  rw [hstep, toOption_bind, record?_writes h, List.mapM_cons]
  cases lease? v with
  | none => rfl
  | some l =>
    show (recordsWithin fuel false after >>= fun r => .ok (l :: r.1, r.2)).toOption =
      ((vs.mapM lease?).bind fun ls => some (l :: ls)).map fun ls => (ls, rest)
    rw [toOption_bind, ih]
    cases vs.mapM lease? <;> rfl

theorem recordsWithin_end (hw : Blank w) (isFirst : Bool) (fuel : Nat) (rest : List UInt8) :
    recordsWithin (fuel + 1) isFirst (w ++ byte ']' :: rest) = .ok ([], rest) := by
  rw [recordsWithin, Json.nextElement_end hw]
  simp only [ofText, bind, Except.bind, Json.endList_blank hw]
  rfl

theorem recordsWithin_separated {vs : List Document} (h : Separated Writes vs t) {fuel : Nat}
    (hfuel : vs.length < fuel) (rest : List UInt8) :
    (recordsWithin fuel false (t ++ byte ']' :: rest)).toOption =
      (vs.mapM lease?).map fun ls => (ls, rest) := by
  induction h generalizing fuel with
  | done hw =>
    obtain ⟨fuel, rfl⟩ : ∃ k, fuel = k + 1 := ⟨fuel - 1, by simp at hfuel; omega⟩
    rw [recordsWithin_end hw]
    rfl
  | @more v vs x w s t hx hw hs ht ih =>
    rw [List.length_cons] at hfuel
    obtain ⟨fuel, rfl⟩ : ∃ k, fuel = k + 1 := ⟨fuel - 1, by omega⟩
    simp only [List.append_assoc, List.cons_append]
    exact recordsWithin_cons (nextElement_writes_next hx hw hs _) hs (ih (by omega))

/-- The list of records is read to its end. -/
theorem recordsWithin_enclosed {vs : List Document} (h : Enclosed Writes '[' ']' vs s)
    (rest : List UInt8) : ∃ body, s ++ rest = byte '[' :: body ∧
      (recordsWithin (body.length + 1) true body).toOption =
        (vs.mapM lease?).map fun ls => (ls, rest) := by
  cases h with
  | @empty w hw =>
    refine ⟨w ++ byte ']' :: rest, by simp, ?_⟩
    rw [recordsWithin_end hw]
    rfl
  | @items v vs w s t hw hs ht =>
    have hlength := ht.length_le
    refine ⟨w ++ (s ++ (t ++ byte ']' :: rest)), by simp, ?_⟩
    refine recordsWithin_cons (nextElement_writes_first hw hs _) hs
      (recordsWithin_separated ht ?_ rest)
    simp only [List.length_append, List.length_cons]
    omega

theorem decode_isText {bytes : List UInt8} (h : Json.IsText v bytes) :
    (decode bytes).toOption = leases? v := by
  obtain ⟨w, s, x, hw, hs, hx, rfl⟩ := h
  obtain ⟨b, t, hb, hlead⟩ := hs.leads
  have hskip : Json.skipSpace (w ++ (s ++ x)) = s ++ x := by
    rw [hb, Json.skipSpace_blank hw, List.cons_append, Json.skipSpace_cons hlead.ne_closing.1]
  rw [decode, hskip]
  cases hs with
  | array h =>
    obtain ⟨body, hbody, hrecords⟩ := recordsWithin_enclosed h x
    rw [hbody]
    show (recordsWithin (body.length + 1) true body >>=
      fun r => ofText (Json.endDocument r.2) >>= fun _ => .ok r.1).toOption = _
    rw [toOption_bind, hrecords, leases?]
    cases List.mapM lease? _ with
    | none => rfl
    | some ls =>
      show (ofText (Json.endDocument x) >>= fun _ => .ok ls).toOption = some ls
      rw [Json.endDocument_eq_ok_iff.mpr hx]
      rfl
  | _ =>
    have hlist : b ≠ byte '[' := by
      intro heq
      obtain ⟨vs, hvs⟩ := hlead.kind.2.1 heq
      cases hvs
    rw [hb, List.cons_append]
    simp only [if_pos hlist]
    rfl

theorem decode_eq_ok_iff_of_isText {bytes : List UInt8} (h : Json.IsText v bytes) {ls : LeaseSet} :
    decode bytes = .ok ls ↔ IsLeaseFile v ls := by
  rw [← leases?_eq_some_iff, ← decode_isText h, toOption_eq_some_iff]

/-! ### A file with records of both forms -/

/-- An object with a field of its own, and a list of as few values as there can be. -/
def bothForms : Document := .array [
  .object [("addr", .string "10.0.0.1"), ("tags", .array [.null, .boolean true]),
    ("hardware_addr", .string "aa:bb:cc:dd:ee:01")],
  .array [.number ⟨true, 7, none, none⟩, .string "10.0.0.2", .string "aa:bb:cc:dd:ee:02"]]

def bothFormsLeases : LeaseSet := [
  ⟨0, .ofOctets 10 0 0 1, ⟨⟨0xaa, 0xbb, 0xcc⟩, ⟨0xdd, 0xee, 0x01⟩⟩, "", "", none⟩,
  ⟨-7, .ofOctets 10 0 0 2, ⟨⟨0xaa, 0xbb, 0xcc⟩, ⟨0xdd, 0xee, 0x02⟩⟩, "", "", none⟩]

/-- The document with white space here and there, and with an escape in the first key. -/
def bothFormsText : List UInt8 :=
  ("\t[ \x7b\"\\u0061ddr\" :\"10.0.0.1\", \"tags\":[null,true] ," ++
    "\"hardware_addr\":\"aa:bb:cc:dd:ee:01\"\x7d,\n[-7, \"10.0.0.2\"," ++
    "\"aa:bb:cc:dd:ee:02\"]]\r\n").toList.map byte

theorem isText_bothForms : Json.IsText bothForms bothFormsText := by
  have hplain {s : String}
      (h : s.toList.all (fun c => c ≠ '"' ∧ c ≠ '\\' ∧ 0x20 ≤ c.toNat) = true) :
      Writes (.string s) _ := .string (.plain h)
  have hspace : Blank [byte ' '] := by decide
  have hlineBreak : Blank [byte '\n'] := by decide
  have haddr : Json.SpellsText ['a', 'd', 'd', 'r'] _ :=
    .cons (.code ⟨fun i => ['0', '0', '6', '1'].get i, fun i => [0, 0, 6, 1].get i, by decide⟩
      (by decide) (by decide)) (.plain (by decide))
  have htags : Writes (.array [.null, .boolean true]) _ :=
    .array (.items Json.blank_nil .null
      (.more Json.blank_nil Json.blank_nil (.boolean true) (.done Json.blank_nil)))
  have hobject : Writes (.object [("addr", .string "10.0.0.1"),
      ("tags", .array [.null, .boolean true]), ("hardware_addr", .string "aa:bb:cc:dd:ee:01")]) _ :=
    .object (.items Json.blank_nil (.mk haddr hspace Json.blank_nil (hplain (by decide)))
      (.more Json.blank_nil hspace (.mk (.plain (by decide)) Json.blank_nil Json.blank_nil htags)
        (.more hspace Json.blank_nil
          (.mk (.plain (by decide)) Json.blank_nil Json.blank_nil (hplain (by decide)))
          (.done Json.blank_nil))))
  have hlist : Writes (.array [.number ⟨true, 7, none, none⟩, .string "10.0.0.2",
      .string "aa:bb:cc:dd:ee:02"]) _ :=
    .array (.items Json.blank_nil (.number _) (.more Json.blank_nil hspace (hplain (by decide))
      (.more Json.blank_nil Json.blank_nil (hplain (by decide)) (.done Json.blank_nil))))
  refine ⟨[byte '\t'], _, [byte '\r', byte '\n'], by decide, .array (.items hspace hobject
    (.more Json.blank_nil hlineBreak hlist (.done Json.blank_nil))), by decide, ?_⟩
  decide +kernel

theorem isLeaseFile_bothForms : IsLeaseFile bothForms bothFormsLeases :=
  leases?_eq_some_iff.mp (by decide +kernel)

/-! ### The format -/

/-- **A file is accepted exactly if its document is in the format of lease files**, whatever the
text in which the document is written: then the leases are those that the records hold, in the same
order.  Any other document is refused. -/
theorem decode_format {v : Document} {bytes : List UInt8} (h : Json.IsText v bytes) :
    (∀ ls, decode bytes = .ok ls ↔ IsLeaseFile v ls) ∧
      ((∃ e, decode bytes = .error e) ↔ ∀ ls, ¬IsLeaseFile v ls) := by
  have haccepted (ls : LeaseSet) : decode bytes = .ok ls ↔ IsLeaseFile v ls := by
    rw [← leases?_eq_some_iff, ← decode_isText h, toOption_eq_some_iff]
  refine ⟨haccepted, ?_⟩
  constructor
  · rintro ⟨e, he⟩ ls hls
    rw [(haccepted ls).mpr hls] at he
    cases he
  · intro hrefused
    cases hdecode : decode bytes with
    | error e => exact ⟨e, rfl⟩
    | ok ls => exact absurd ((haccepted ls).mp hdecode) (hrefused ls)

theorem decode_format_bothForms :
    Json.IsText bothForms bothFormsText ∧ IsLeaseFile bothForms bothFormsLeases ∧
      decode bothFormsText = .ok bothFormsLeases :=
  ⟨isText_bothForms, isLeaseFile_bothForms,
    ((decode_format isText_bothForms).1 bothFormsLeases).mpr isLeaseFile_bothForms⟩

end LeaseKeeper.LeaseFile
