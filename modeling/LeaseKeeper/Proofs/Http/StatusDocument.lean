/-
What the text of a status page says.

* `LeaseRow.document`, `StatusPage.document` — the rows of a page as a document;
* `document_injective` — a page is known from its document;
* `isText_statusBody` — what is written for a page is a text of its document.
-/
import LeaseKeeper.Http.StatusDocument
import LeaseKeeper.Proofs.Json.Writing

namespace LeaseKeeper

open Json (Document)

/-! ### Pages as documents -/

def optionalDocument : Option String → Document
  | some t => .string t
  | none => .null

/-- A row as an object, with null for what it does not show. -/
def LeaseRow.document (s : LeaseRow) : Document :=
  .object [
    ("num", .number (.ofInt s.ordinal.toInt)),
    ("addr", .string s.address),
    ("hardware_addr", .string s.hardwareAddress),
    ("vendor", optionalDocument s.vendor),
    ("hostname", .string s.hostname),
    ("hostname_overridden", .boolean s.hostnameOverridden),
    ("display_hostname", .string s.shownHostname),
    ("expiry", optionalDocument s.expiry),
    ("expired", .boolean s.expired),
    ("static", .boolean s.isStatic),
    ("since", optionalDocument s.since)]

/-- A page as an object, with a list of rows for each kind of leases. -/
def StatusPage.document (s : StatusPage) : Document :=
  .object [
    ("static_leases", .array (s.staticLeases.map LeaseRow.document)),
    ("dynamic_leases", .array (s.dynamicLeases.map LeaseRow.document))]

theorem optionalDocument_inj {t t' : Option String} :
    optionalDocument t = optionalDocument t' ↔ t = t' := by
  cases t <;> cases t' <;> simp [optionalDocument]

theorem ofInt_toInt_inj {n n' : Int64} :
    Json.Numeral.ofInt n.toInt = Json.Numeral.ofInt n'.toInt ↔ n = n' := by
  refine ⟨fun h => Int64.toInt_inj.mp ?_, fun h => h ▸ rfl⟩
  rw [← Json.Numeral.signed_ofInt n.toInt, h, Json.Numeral.signed_ofInt]

theorem LeaseRow.document_injective : Function.Injective LeaseRow.document := by
  intro s s' h
  simp only [document, Document.object.injEq, List.cons.injEq, Prod.mk.injEq, true_and, and_true,
    Document.number.injEq, Document.string.injEq, Document.boolean.injEq, ofInt_toInt_inj,
    optionalDocument_inj] at h
  cases s
  cases s'
  simpa only [LeaseRow.mk.injEq] using h

/-- A page is known from its document. -/
theorem StatusPage.document_injective : Function.Injective StatusPage.document := by
  intro s s' h
  simp only [document, Document.object.injEq, List.cons.injEq, Prod.mk.injEq, true_and, and_true,
    Document.array.injEq] at h
  have hrows := List.map_injective_iff.mpr LeaseRow.document_injective
  exact congr (congrArg StatusPage.mk (hrows h.1)) (hrows h.2)

namespace Http

open Json (Layout)
open Json.Value (Shows)

/-! ### What is written -/

variable {layout : Layout}

theorem shows_optionalText (t : Option String) :
    Shows layout (optionalText t) (optionalDocument t) := by
  cases t with
  | none => exact Json.Value.shows_null
  | some t => exact Json.Value.shows_string t

theorem shows_leaseDocument (s : LeaseRow) : Shows layout (leaseDocument s) s.document := by
  refine Json.Value.shows_object ?_
  simp only [List.forall₂_cons, List.forall₂_nil_left_iff, Json.Value.shows_integer,
    Json.Value.shows_string, Json.Value.shows_boolean, shows_optionalText, and_self]

theorem shows_leases (rows : List LeaseRow) :
    Shows layout (.array (rows.map leaseDocument)) (.array (rows.map LeaseRow.document)) := by
  refine Json.Value.shows_array ?_
  rw [List.forall₂_map_left_iff, List.forall₂_map_right_iff, List.forall₂_same]
  exact fun s _ => shows_leaseDocument s

theorem shows_statusDocument (s : StatusPage) : Shows layout (statusDocument s) s.document := by
  refine Json.Value.shows_object ?_
  simp only [List.forall₂_cons, List.forall₂_nil_left_iff, shows_leases, and_self]

/-- What is written for a page is a text of its document. -/
theorem isText_statusBody (s : StatusPage) :
    Json.IsText s.document (Text.Utf8.encode (statusBody s)) :=
  (shows_statusDocument s).isText

end Http

end LeaseKeeper
