/-
What has been read where the reader of a lease file has not failed.

* `Field.read`, `readField_eq_ok_iff` — the value of a field, which a draft then has;
* `fieldsWithin_succ_eq_ok_iff`, `elements_cons_eq_ok_iff` — a field of an object or a value of a
  list, or the end of either;
* `record?_eq_ok_iff`, `recordsWithin_succ_eq_ok_iff`, `decode_eq_ok_iff` — a record, the records
  one after another, and the whole file.
-/
import LeaseKeeper.Proofs.Except
import LeaseKeeper.Proofs.LeaseFile.Format

namespace LeaseKeeper.LeaseFile

open Json (Scanned byte skipSpace)

variable {α : Type} {d e : Draft} {f : Field} {l : Lease} {s t rest : List UInt8}

theorem ofText_eq_ok_iff {x : Except Json.Fault α} {a : α} : ofText x = .ok a ↔ x = .ok a := by
  cases x with
  | ok b => simp [ofText]
  | error fault => simp [ofText]

theorem ofContent_eq_ok_iff {x : Except Misfit α} {a : α} : ofContent x = .ok a ↔ x = .ok a := by
  cases x with
  | ok b => simp [ofContent]
  | error misfit => simp [ofContent]

/-! ### Fields -/

/-- Reads a text that has to stand for something else. -/
def meant (wanted : Wanted) (meaning : String → Except Misfit α) (s : List UInt8) :
    Except Error (Scanned α) := do
  let (text, s) ← text? wanted s
  return (← ofContent (meaning text), s)

/-- Reads the value of a field. -/
def Field.read : (f : Field) → List UInt8 → Except Error (Scanned f.Value)
  | .num => integer
  | .addr => meant .ipv4 addressOfText
  | .hardwareAddr => meant .text hardwareAddressOfText
  | .hostname => text? .text
  | .hostnameOverride => text? .text
  | .expiry => meant .text expiryOfText

theorem meant_eq_ok_iff {wanted : Wanted} {meaning : String → Except Misfit α} {x : α} :
    meant wanted meaning s = .ok (x, rest) ↔
      ∃ text, text? wanted s = .ok (text, rest) ∧ meaning text = .ok x := by
  simp only [meant, bind_eq_ok, Prod.exists, ofContent_eq_ok_iff]
  constructor
  · rintro ⟨text, _, htext, y, hy, h⟩
    cases h
    exact ⟨text, htext, hy⟩
  · rintro ⟨text, htext, hx⟩
    exact ⟨text, rest, htext, x, hx, rfl⟩

theorem meant_map (wanted : Wanted) (meaning : String → Except Misfit α) (k : α → Draft)
    (s : List UInt8) :
    (do
      let (text, s) ← text? wanted s
      return (k (← ofContent (meaning text)), s)) =
    (meant wanted meaning s).map fun (x, s) => (k x, s) := by
  rw [meant]
  cases text? wanted s with
  | error e => rfl
  | ok r =>
    show (ofContent (meaning r.1) >>= fun x => .ok (k x, r.2)) =
      (ofContent (meaning r.1) >>= fun x => .ok (x, r.2)).map fun (x, s) => (k x, s)
    cases ofContent (meaning r.1) with
    | error e => rfl
    | ok x => rfl

theorem readField_eq (d : Draft) (f : Field) (s : List UInt8) :
    d.readField f s = (f.read s).map fun (x, s) => (d.set f x, s) := by
  cases f with
  | num =>
    rw [Draft.readField, Field.read]
    cases integer s <;> rfl
  | addr => exact meant_map .ipv4 addressOfText _ s
  | hardwareAddr => exact meant_map .text hardwareAddressOfText _ s
  | hostname =>
    rw [Draft.readField, Field.read]
    cases text? .text s <;> rfl
  | hostnameOverride =>
    rw [Draft.readField, Field.read]
    cases text? .text s <;> rfl
  | expiry => exact meant_map .text expiryOfText _ s

theorem readField_eq_ok_iff :
    d.readField f s = .ok (e, rest) ↔ ∃ x, f.read s = .ok (x, rest) ∧ e = d.set f x := by
  rw [readField_eq, map_eq_ok]
  constructor
  · rintro ⟨⟨x, _⟩, hx, h⟩
    cases h
    exact ⟨x, hx, rfl⟩
  · rintro ⟨x, hx, rfl⟩
    exact ⟨(x, rest), hx, rfl⟩

/-! ### Objects and lists -/

theorem fieldsWithin_succ_eq_ok_iff {fuel : Nat} {isFirst : Bool} :
    fieldsWithin (fuel + 1) d isFirst s = .ok (e, rest) ↔
      (Json.nextKey isFirst s = .ok (none, rest) ∧ e = d) ∨
      ∃ key t u v, Json.nextKey isFirst s = .ok (some key, t) ∧ Json.colon t = .ok u ∧
        ((Field.ofKey? key = none ∧ Json.skipValue u = .ok v ∧
            fieldsWithin fuel d false v = .ok (e, rest)) ∨
          ∃ f x, Field.ofKey? key = some f ∧ d.has f = false ∧ f.read u = .ok (x, v) ∧
            fieldsWithin fuel (d.set f x) false v = .ok (e, rest)) := by
  simp only [fieldsWithin, bind_eq_ok, Prod.exists, ofText_eq_ok_iff]
  constructor
  · rintro ⟨key, t, hkey, h⟩
    cases key with
    | none =>
      cases h
      exact .inl ⟨hkey, rfl⟩
    | some key =>
      right
      dsimp only at h
      split at h
      · next hf =>
        simp only [bind_eq_ok, ofText_eq_ok_iff] at h
        obtain ⟨u, hu, v, hv, h⟩ := h
        exact ⟨key, t, u, v, hkey, hu, .inl ⟨hf, hv, h⟩⟩
      · next f hf =>
        split at h
        · cases h
        · next hhas =>
          simp only [bind_eq_ok, Prod.exists, ofText_eq_ok_iff, readField_eq_ok_iff] at h
          obtain ⟨u, hu, _, v, ⟨x, hx, rfl⟩, h⟩ := h
          exact ⟨key, t, u, v, hkey, hu, .inr ⟨f, x, hf, Bool.eq_false_iff.mpr hhas, hx, h⟩⟩
  · rintro (⟨hkey, rfl⟩ | ⟨key, t, u, v, hkey, hu, ⟨hf, hv, h⟩ | ⟨f, x, hf, hhas, hx, h⟩⟩)
    · exact ⟨none, rest, hkey, rfl⟩
    · refine ⟨some key, t, hkey, ?_⟩
      dsimp only
      rw [hf]
      simp only [bind_eq_ok, ofText_eq_ok_iff]
      exact ⟨u, hu, v, hv, h⟩
    · refine ⟨some key, t, hkey, ?_⟩
      dsimp only
      rw [hf]
      dsimp only
      rw [if_neg (Bool.eq_false_iff.mp hhas)]
      simp only [bind_eq_ok, Prod.exists, ofText_eq_ok_iff, readField_eq_ok_iff]
      exact ⟨u, hu, _, v, ⟨x, hx, rfl⟩, h⟩

theorem elements_cons_eq_ok_iff {count : Nat} {fs : List Field} :
    elements d count (f :: fs) s = .ok (e, rest) ↔
      (Json.nextElement (count == 0) s = .ok none ∧ (∀ g ∈ f :: fs, g.isRequired = false) ∧
        e = d ∧ rest = s) ∨
      ∃ t x u, Json.nextElement (count == 0) s = .ok (some t) ∧ f.read t = .ok (x, u) ∧
        elements (d.set f x) (count + 1) fs u = .ok (e, rest) := by
  simp only [elements, bind_eq_ok, ofText_eq_ok_iff]
  constructor
  · rintro ⟨next, hnext, h⟩
    cases next with
    | none =>
      dsimp only at h
      split at h
      · cases h
      · next hfind =>
        cases h
        exact .inl ⟨hnext, List.findIdx?_eq_none_iff.mp hfind, rfl, rfl⟩
    | some t =>
      simp only [bind_eq_ok, Prod.exists, readField_eq_ok_iff] at h
      obtain ⟨_, u, ⟨x, hx, rfl⟩, h⟩ := h
      exact .inr ⟨t, x, u, hnext, hx, h⟩
  · rintro (⟨hnext, hrequired, rfl, rfl⟩ | ⟨t, x, u, hnext, hx, h⟩)
    · refine ⟨none, hnext, ?_⟩
      dsimp only
      rw [List.findIdx?_eq_none_iff.mpr hrequired]
      rfl
    · refine ⟨some t, hnext, ?_⟩
      simp only [bind_eq_ok, Prod.exists, readField_eq_ok_iff]
      exact ⟨_, u, ⟨x, hx, rfl⟩, h⟩

/-! ### Records and files -/

theorem record?_eq_ok_iff : record? s = .ok (l, rest) ↔
    (∃ t d, skipSpace s = byte '\x7b' :: t ∧
      fieldsWithin (t.length + 1) .empty true t = .ok (d, rest) ∧ d.finish = .ok l) ∨
    ∃ t d u, skipSpace s = byte '[' :: t ∧ elements .empty 0 Field.all t = .ok (d, u) ∧
      d.finish = .ok l ∧ Json.endList u = .ok rest := by
  constructor
  · intro h
    unfold record? at h
    split at h
    · cases h
    · next b t hs =>
      split at h
      · next hb =>
        simp only [bind_eq_ok, Prod.exists, ofContent_eq_ok_iff] at h
        obtain ⟨d, _, hd, l, hl, h⟩ := h
        cases h
        exact .inl ⟨t, d, hb ▸ hs, hd, hl⟩
      · split at h
        · next hb =>
          simp only [bind_eq_ok, Prod.exists, ofContent_eq_ok_iff, ofText_eq_ok_iff] at h
          obtain ⟨d, u, hd, l, hl, _, hu, h⟩ := h
          cases h
          exact .inr ⟨t, d, u, hb ▸ hs, hd, hl, hu⟩
        · cases h
  · rintro (⟨t, d, hs, hd, hl⟩ | ⟨t, d, u, hs, hd, hl, hu⟩)
    · rw [record?, hs]
      simp only [if_true, bind_eq_ok, Prod.exists, ofContent_eq_ok_iff]
      exact ⟨d, rest, hd, l, hl, rfl⟩
    · have hlist : byte '[' ≠ byte '\x7b' := by decide
      rw [record?, hs]
      simp only [if_neg hlist, if_true, bind_eq_ok, Prod.exists, ofContent_eq_ok_iff,
        ofText_eq_ok_iff]
      exact ⟨d, u, hd, l, hl, rest, hu, rfl⟩

theorem recordsWithin_succ_eq_ok_iff {fuel : Nat} {isFirst : Bool} {ls : List Lease} :
    recordsWithin (fuel + 1) isFirst s = .ok (ls, rest) ↔
      (Json.nextElement isFirst s = .ok none ∧ Json.endList s = .ok rest ∧ ls = []) ∨
      ∃ t l u ls', Json.nextElement isFirst s = .ok (some t) ∧ record? t = .ok (l, u) ∧
        recordsWithin fuel false u = .ok (ls', rest) ∧ ls = l :: ls' := by
  simp only [recordsWithin, bind_eq_ok, ofText_eq_ok_iff]
  constructor
  · rintro ⟨next, hnext, h⟩
    cases next with
    | none =>
      simp only [bind_eq_ok, ofText_eq_ok_iff] at h
      obtain ⟨_, hend, h⟩ := h
      cases h
      exact .inl ⟨hnext, hend, rfl⟩
    | some t =>
      simp only [bind_eq_ok, Prod.exists] at h
      obtain ⟨l, u, hl, ls', _, hls, h⟩ := h
      cases h
      exact .inr ⟨t, l, u, ls', hnext, hl, hls, rfl⟩
  · rintro (⟨hnext, hend, rfl⟩ | ⟨t, l, u, ls', hnext, hl, hls, rfl⟩)
    · refine ⟨none, hnext, ?_⟩
      simp only [bind_eq_ok, ofText_eq_ok_iff]
      exact ⟨rest, hend, rfl⟩
    · refine ⟨some t, hnext, ?_⟩
      simp only [bind_eq_ok, Prod.exists]
      exact ⟨l, u, hl, ls', rest, hls, rfl⟩

theorem decode_eq_ok_iff {ls : LeaseSet} : decode s = .ok ls ↔
    ∃ t u, skipSpace s = byte '[' :: t ∧ recordsWithin (t.length + 1) true t = .ok (ls, u) ∧
      Json.endDocument u = .ok () := by
  constructor
  · intro h
    unfold decode at h
    split at h
    · cases h
    · next b t hs =>
      split at h
      · cases h
      · next hb =>
        simp only [bind_eq_ok, Prod.exists, ofText_eq_ok_iff] at h
        obtain ⟨ls, u, hls, _, hu, h⟩ := h
        cases h
        exact ⟨t, u, Classical.not_not.mp hb ▸ hs, hls, hu⟩
  · rintro ⟨t, u, hs, hls, hu⟩
    rw [decode, hs]
    simp only [ne_eq, not_true, if_false, bind_eq_ok, Prod.exists, ofText_eq_ok_iff]
    exact ⟨ls, u, hls, _, hu, rfl⟩

end LeaseKeeper.LeaseFile
