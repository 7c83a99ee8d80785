/-
The format of a lease file.

* `Field.Holds`, `Field.Defaults` — what a lease has in the place of a field, by the value that a
  record has for it, or if it has none;
* `HoldsLease`, `IsRecord`, `IsLeaseFile` — what a document has to be to hold leases, and which ones
  it holds;
* `Field.value?`, `collect`, `lease?`, `leases?` — the same as it is found out field by field;
* `holds_iff`, `lease?_eq_some_iff`, `leases?_eq_some_iff` — that both agree.

Design notes: a record that is a list is one whose fields are named in the order in which they are
declared.  Beside `HoldsLease`, which is about the fields of a record in any order, nothing more is
to be said of it than how long it can be.
-/
import LeaseKeeper.Proofs.Except
import LeaseKeeper.Proofs.Json.Scanning
import LeaseKeeper.Proofs.LeaseFile.Record
import Mathlib.Data.List.Forall2

namespace LeaseKeeper.LeaseFile

open Json (Document Numeral)

/-! ### Documents that hold leases -/

/-- What a field of a lease is if a record has the value for it. -/
def Field.Holds : Field → Document → Lease → Prop
  | .num, .number n, l =>
    n.isWhole = true ∧ ¬(n.negative = true ∧ n.whole = 0) ∧ n.signed = l.ordinal.toInt
  | .addr, .string s, l => s = l.address.toText
  | .hardwareAddr, .string s, l => HardwareAddress.parse s = .ok l.hardwareAddress
  | .hostname, .string s, l => s = l.hostname
  | .hostnameOverride, .string s, l => s = l.hostnameOverride
  | .expiry, .string s, l => ∃ t, Rfc3339.read s.toList = .ok t ∧
    l.expiry = if t.seconds ≤ zeroTime then none else some t
  | _, _, _ => False

/-- What a field of a lease is if a record has no value for it. -/
def Field.Defaults : Field → Lease → Prop
  | .num, l => l.ordinal = 0
  | .addr, _ | .hardwareAddr, _ => False
  | .hostname, l => l.hostname = ""
  | .hostnameOverride, l => l.hostnameOverride = ""
  | .expiry, l => l.expiry = none

/-- The fields hold a lease.  Those with other keys do not matter. -/
structure HoldsLease (fields : List (String × Document)) (l : Lease) : Prop where
  once : ∀ f : Field, (fields.map (·.1)).count f.key ≤ 1
  present : ∀ (f : Field) (v : Document), (f.key, v) ∈ fields → f.Holds v l
  absent : ∀ f : Field, f.key ∉ fields.map (·.1) → f.Defaults l

/-- The first fields in the order in which they are declared, with the given values. -/
def declared (vs : List Document) : List (String × Document) := (Field.all.map Field.key).zip vs

inductive IsRecord : Document → Lease → Prop
  | object {fields : List (String × Document)} {l : Lease} :
    HoldsLease fields l → IsRecord (.object fields) l
  | array {vs : List Document} {l : Lease} : 3 ≤ vs.length → vs.length ≤ 6 →
    HoldsLease (declared vs) l → IsRecord (.array vs) l

/-- The document is the content of a lease file. -/
def IsLeaseFile (v : Document) (ls : LeaseSet) : Prop :=
  ∃ vs, v = .array vs ∧ List.Forall₂ IsRecord vs ls

/-! ### Values of fields -/

/-- What a field can be. -/
abbrev Field.Value : Field → Type
  | .num => Int64
  | .addr => Ipv4
  | .hardwareAddr => HardwareAddress
  | .hostname | .hostnameOverride => String
  | .expiry => Option Instant

def Field.ofLease : (f : Field) → Lease → f.Value
  | .num, l => l.ordinal
  | .addr, l => l.address
  | .hardwareAddr, l => l.hardwareAddress
  | .hostname, l => l.hostname
  | .hostnameOverride, l => l.hostnameOverride
  | .expiry, l => l.expiry

/-- The number that a document is. -/
def number? : Document → Option Numeral
  | .number n => some n
  | _ => none

/-- The string that a document is. -/
def string? : Document → Option String
  | .string s => some s
  | _ => none

def ordinalOf? (n : Numeral) : Option Int64 :=
  (n.literal.number n.negative).toOption.bind fun x => (ordinal x).toOption

/-- What a field is if a record has the value for it. -/
def Field.value? : (f : Field) → Document → Option f.Value
  | .num, v => (number? v).bind ordinalOf?
  | .addr, v => (string? v).bind fun s => (addressOfText s).toOption
  | .hardwareAddr, v => (string? v).bind fun s => (hardwareAddressOfText s).toOption
  | .hostname, v => string? v
  | .hostnameOverride, v => string? v
  | .expiry, v => (string? v).bind fun s => (expiryOfText s).toOption

variable {ε α β : Type} {f g : Field} {v : Document} {l : Lease}

theorem isInteger_of_signed {n : Numeral} {x : Int64} (hwhole : n.isWhole = true)
    (hzero : ¬(n.negative = true ∧ n.whole = 0)) (hx : n.signed = x.toInt) : n.IsInteger := by
  have hlt : x.toInt < 0x8000000000000000 := x.toInt_lt
  have hle : -0x8000000000000000 ≤ x.toInt := x.le_toInt
  rw [Numeral.signed] at hx
  refine ⟨hwhole, ?_, fun hnegative => ?_⟩
  · split at hx <;> omega
  · rw [if_pos hnegative] at hx
    have hne : n.whole ≠ 0 := fun h => hzero ⟨hnegative, h⟩
    omega

theorem ordinal_of_isInteger {n : Numeral} (h : n.IsInteger) {x : Int64} :
    ordinal (.integer n.signed) = .ok x ↔ n.signed = x.toInt := by
  obtain ⟨-, -, hnegative⟩ := h
  constructor
  · intro hx
    rw [ordinal] at hx
    split at hx
    · next hlt =>
      have hle : -0x8000000000000000 ≤ n.signed := by
        rw [Numeral.signed]
        split
        · next hsign =>
          have := (hnegative hsign).2
          omega
        · omega
      cases hx
      exact (Int64.toInt_ofInt_of_le hle hlt).symm
    · cases hx
  · intro hx
    rw [hx]
    exact ordinal_toInt x

theorem ordinalOf?_eq_some_iff {n : Numeral} {x : Int64} :
    ordinalOf? n = some x ↔
      n.isWhole = true ∧ ¬(n.negative = true ∧ n.whole = 0) ∧ n.signed = x.toInt := by
  rw [ordinalOf?]
  by_cases h : n.IsInteger
  · rw [Json.number_of_isInteger h]
    refine toOption_eq_some_iff.trans ((ordinal_of_isInteger h).trans ?_)
    refine ⟨fun hx => ⟨h.1, fun hand => ?_, hx⟩, fun hand => hand.2.2⟩
    exact Nat.lt_irrefl 0 (hand.2 ▸ (h.2.2 hand.1).1)
  · refine iff_of_false (fun hx => ?_) fun hand => h (isInteger_of_signed hand.1 hand.2.1 hand.2.2)
    -- Any other number is a double, which is no ordinal.
    obtain ⟨y, hy, hordinal⟩ := Option.bind_eq_some_iff.mp hx
    rw [toOption_eq_some_iff] at hy hordinal
    cases y with
    | integer k => exact Json.number_of_not_isInteger h k hy
    | double bits => cases hordinal

theorem addressOfText_eq_ok_iff {s : String} {a : Ipv4} :
    addressOfText s = .ok a ↔ s = a.toText := by
  have hchars : s.toList = a.toChars ↔ s = a.toText := by
    rw [Ipv4.toText]
    constructor
    · intro h
      rw [← h, String.ofList_toList]
    · rintro rfl
      exact String.toList_ofList
  rw [← hchars, ← Ipv4.ofText?_eq_some_iff, addressOfText]
  cases Ipv4.ofText? s.toList <;> simp

theorem hardwareAddressOfText_eq_ok_iff {s : String} {a : HardwareAddress} :
    hardwareAddressOfText s = .ok a ↔ HardwareAddress.parse s = .ok a := by
  rw [hardwareAddressOfText]
  cases HardwareAddress.parse s <;> simp

theorem expiryOfText_eq_ok_iff {s : String} {e : Option Instant} :
    expiryOfText s = .ok e ↔
      ∃ t, Rfc3339.read s.toList = .ok t ∧ e = if t.seconds ≤ zeroTime then none else some t := by
  rw [expiryOfText]
  cases Rfc3339.read s.toList with
  | ok t => simp [eq_comm]
  | error e => simp

theorem holds_iff (f : Field) (v : Document) (l : Lease) :
    f.Holds v l ↔ f.value? v = some (f.ofLease l) := by
  cases f with
  | num =>
    cases v with
    | number n => exact ordinalOf?_eq_some_iff.symm
    | _ => exact ⟨False.elim, nofun⟩
  | addr =>
    cases v with
    | string s => exact (toOption_eq_some_iff.trans addressOfText_eq_ok_iff).symm
    | _ => exact ⟨False.elim, nofun⟩
  | hardwareAddr =>
    cases v with
    | string s => exact (toOption_eq_some_iff.trans hardwareAddressOfText_eq_ok_iff).symm
    | _ => exact ⟨False.elim, nofun⟩
  | hostname =>
    cases v with
    | string s => exact Option.some_inj.symm
    | _ => exact ⟨False.elim, nofun⟩
  | hostnameOverride =>
    cases v with
    | string s => exact Option.some_inj.symm
    | _ => exact ⟨False.elim, nofun⟩
  | expiry =>
    cases v with
    | string s => exact (toOption_eq_some_iff.trans expiryOfText_eq_ok_iff).symm
    | _ => exact ⟨False.elim, nofun⟩

/-! ### Drafts -/

namespace Draft

/-- The value of a field that has been read. -/
def get? (d : Draft) : (f : Field) → Option f.Value
  | .num => d.num
  | .addr => d.addr
  | .hardwareAddr => d.hardwareAddr
  | .hostname => d.hostname
  | .hostnameOverride => d.hostnameOverride
  | .expiry => d.expiry

def set (d : Draft) : (f : Field) → f.Value → Draft
  | .num, x => { d with num := some x }
  | .addr, x => { d with addr := some x }
  | .hardwareAddr, x => { d with hardwareAddr := some x }
  | .hostname, x => { d with hostname := some x }
  | .hostnameOverride, x => { d with hostnameOverride := some x }
  | .expiry, x => { d with expiry := some x }

/-- The draft with some of the fields of a lease. -/
def ofLease (l : Lease) (p : Field → Bool) : Draft where
  num := if p .num then some l.ordinal else none
  addr := if p .addr then some l.address else none
  hardwareAddr := if p .hardwareAddr then some l.hardwareAddress else none
  hostname := if p .hostname then some l.hostname else none
  hostnameOverride := if p .hostnameOverride then some l.hostnameOverride else none
  expiry := if p .expiry then some l.expiry else none

variable {d e : Draft}

theorem has_eq (d : Draft) (f : Field) : d.has f = (d.get? f).isSome := by
  cases f <;> rfl

theorem get?_empty (f : Field) : empty.get? f = none := by
  cases f <;> rfl

theorem get?_set_self (d : Draft) (f : Field) (x : f.Value) : (d.set f x).get? f = some x := by
  cases f <;> rfl

theorem get?_set_of_ne (h : g ≠ f) (x : f.Value) : (d.set f x).get? g = d.get? g := by
  cases f <;> cases g <;> first | rfl | exact absurd rfl h

theorem get?_ofLease (l : Lease) (p : Field → Bool) (f : Field) :
    (ofLease l p).get? f = if p f then some (f.ofLease l) else none := by
  cases f <;> rfl

theorem ext_get? (h : ∀ f, d.get? f = e.get? f) : d = e := by
  obtain ⟨num, addr, hardwareAddr, hostname, hostnameOverride, expiry⟩ := d
  obtain ⟨num', addr', hardwareAddr', hostname', hostnameOverride', expiry'⟩ := e
  rw [Draft.mk.injEq]
  exact ⟨h .num, h .addr, h .hardwareAddr, h .hostname, h .hostnameOverride, h .expiry⟩

theorem required_iff {o : Option α} {y : α} :
    ((∀ x, o = some x → x = y) ∧ (o = none → False)) ↔ o = some y := by
  cases o <;> simp

theorem optional_iff {o : Option α} {y z : α} :
    ((∀ x, o = some x → x = y) ∧ (o = none → y = z)) ↔ o.getD z = y := by
  cases o <;> simp [eq_comm]

/-- A draft becomes the lease that has all its fields, and the defaults in place of the others. -/
theorem finish_eq_ok_iff :
    d.finish = .ok l ↔
      ∀ f, (∀ x, d.get? f = some x → x = f.ofLease l) ∧ (d.get? f = none → f.Defaults l) := by
  have hfinish : d.finish = .ok l ↔ d.num.getD 0 = l.ordinal ∧ d.addr = some l.address ∧
      d.hardwareAddr = some l.hardwareAddress ∧ d.hostname.getD "" = l.hostname ∧
      d.hostnameOverride.getD "" = l.hostnameOverride ∧ d.expiry.getD none = l.expiry := by
    obtain ⟨num, addr, hardwareAddr, hostname, hostnameOverride, expiry⟩ := d
    obtain ⟨ordinal, address, hardwareAddress, hostname', hostnameOverride', expiry'⟩ := l
    cases addr <;> cases hardwareAddr <;> simp [finish]
  rw [hfinish]
  constructor
  · rintro ⟨hnum, haddr, hhardware, hhostname, hoverride, hexpiry⟩ f
    cases f with
    | num => exact optional_iff.mpr hnum
    | addr => exact required_iff.mpr haddr
    | hardwareAddr => exact required_iff.mpr hhardware
    | hostname => exact optional_iff.mpr hhostname
    | hostnameOverride => exact optional_iff.mpr hoverride
    | expiry => exact optional_iff.mpr hexpiry
  · intro h
    exact ⟨optional_iff.mp (h .num), required_iff.mp (h .addr), required_iff.mp (h .hardwareAddr),
      optional_iff.mp (h .hostname), optional_iff.mp (h .hostnameOverride),
      optional_iff.mp (h .expiry)⟩

end Draft

/-! ### Records -/

theorem ofKey?_eq_some_iff {key : String} : Field.ofKey? key = some f ↔ key = f.key := by
  constructor
  · intro h
    have hbeq := List.find?_some (p := fun f : Field => f.key == key) h
    exact (eq_of_beq hbeq).symm
  · rintro rfl
    exact ofKey?_key f

/-- The draft with the values of fields, each of which has to be new. -/
def collect : Draft → List (String × Document) → Option Draft
  | d, [] => some d
  | d, (key, v) :: fields =>
    match Field.ofKey? key with
    | none => collect d fields
    | some f => if d.has f then none else (f.value? v).bind fun x => collect (d.set f x) fields

/-- How a field of a draft comes about: it has been there before, or it is among the fields that
are added. -/
structure Collected (d : Draft) (fields : List (String × Document)) (e : Draft) (f : Field) :
    Prop where
  once : (fields.map (·.1)).count f.key + (if d.has f then 1 else 0) ≤ 1
  present : ∀ v, (f.key, v) ∈ fields → ∃ x, f.value? v = some x ∧ e.get? f = some x
  absent : f.key ∉ fields.map (·.1) → e.get? f = d.get? f

theorem collected_nil {d e : Draft} : Collected d [] e f ↔ e.get? f = d.get? f := by
  refine ⟨fun h => h.absent List.not_mem_nil, fun h => ⟨?_, nofun, fun _ => h⟩⟩
  split <;> simp

theorem collected_cons_of_ne {d e : Draft} {key : String} {fields : List (String × Document)}
    (hne : key ≠ f.key) : Collected d ((key, v) :: fields) e f ↔ Collected d fields e f := by
  have hcount : (((key, v) :: fields).map (·.1)).count f.key = (fields.map (·.1)).count f.key :=
    List.count_cons_of_ne hne
  have hmem : f.key ∈ ((key, v) :: fields).map (·.1) ↔ f.key ∈ fields.map (·.1) := by
    rw [List.map_cons, List.mem_cons]
    exact or_iff_right (Ne.symm hne)
  constructor
  · rintro ⟨honce, hpresent, habsent⟩
    exact ⟨hcount ▸ honce, fun w hw => hpresent w (List.mem_cons_of_mem _ hw),
      fun h => habsent (fun h' => h (hmem.mp h'))⟩
  · rintro ⟨honce, hpresent, habsent⟩
    refine ⟨hcount.symm ▸ honce, fun w hw => ?_, fun h => habsent fun h' => h (hmem.mpr h')⟩
    rcases List.mem_cons.mp hw with heq | hw
    · exact absurd (congrArg (·.1) heq).symm hne
    · exact hpresent w hw

/-- A field at the front is new, and its value is added. -/
theorem collected_cons_self {d e : Draft} {fields : List (String × Document)} :
    Collected d ((f.key, v) :: fields) e f ↔
      d.has f = false ∧ ∃ x, f.value? v = some x ∧ Collected (d.set f x) fields e f := by
  have hcount : (((f.key, v) :: fields).map (·.1)).count f.key =
      (fields.map (·.1)).count f.key + 1 := List.count_cons_self
  have hnew {w : Document} (hw : (f.key, w) ∈ fields) : f.key ∈ fields.map (·.1) :=
    List.mem_map_of_mem hw
  constructor
  · rintro ⟨honce, hpresent, -⟩
    obtain ⟨x, hx, hget⟩ := hpresent v List.mem_cons_self
    rw [hcount] at honce
    have hzero : (fields.map (·.1)).count f.key = 0 := by omega
    have hnot : f.key ∉ fields.map (·.1) := List.count_eq_zero.mp hzero
    have hhas : d.has f = false := by
      cases h : d.has f with
      | false => rfl
      | true =>
        rw [h, if_pos rfl] at honce
        omega
    refine ⟨hhas, x, hx, ?_, fun w hw => absurd (hnew hw) hnot, fun _ => ?_⟩
    · rw [hzero]
      split <;> decide
    · rw [hget, Draft.get?_set_self]
  · rintro ⟨hhas, x, hx, honce, -, habsent⟩
    rw [Draft.has_eq, Draft.get?_set_self, Option.isSome_some, if_pos rfl] at honce
    have hzero : (fields.map (·.1)).count f.key = 0 := by omega
    have hnot : f.key ∉ fields.map (·.1) := List.count_eq_zero.mp hzero
    refine ⟨?_, fun w hw => ?_, fun h => absurd List.mem_cons_self h⟩
    · rw [hcount, hzero, hhas]
      exact Nat.le_refl 1
    · rcases List.mem_cons.mp hw with heq | hw
      · cases heq
        exact ⟨x, hx, by rw [habsent hnot, Draft.get?_set_self]⟩
      · exact absurd (hnew hw) hnot

theorem collected_set_of_ne {d e : Draft} {fields : List (String × Document)} (hne : g ≠ f)
    (x : f.Value) : Collected (d.set f x) fields e g ↔ Collected d fields e g := by
  have hget := Draft.get?_set_of_ne (d := d) hne x
  have hhas : (d.set f x).has g = d.has g := by rw [Draft.has_eq, Draft.has_eq, hget]
  constructor
  · rintro ⟨honce, hpresent, habsent⟩
    exact ⟨hhas ▸ honce, hpresent, fun h => (habsent h).trans hget⟩
  · rintro ⟨honce, hpresent, habsent⟩
    exact ⟨hhas.symm ▸ honce, hpresent, fun h => (habsent h).trans hget.symm⟩

theorem collect_eq_some_iff {d e : Draft} {fields : List (String × Document)} :
    collect d fields = some e ↔ ∀ f, Collected d fields e f := by
  induction fields generalizing d with
  | nil =>
    simp only [collect, Option.some.injEq, collected_nil]
    refine ⟨fun h f => by rw [h], fun h => Draft.ext_get? fun f => (h f).symm⟩
  | cons field fields ih =>
    obtain ⟨key, v⟩ := field
    rw [collect]
    cases hkey : Field.ofKey? key with
    | none =>
      have hne : ∀ f : Field, key ≠ f.key := by
        intro f heq
        rw [ofKey?_eq_some_iff.mpr heq] at hkey
        cases hkey
      exact ih.trans (forall_congr' fun f => (collected_cons_of_ne (hne f)).symm)
    | some f =>
      obtain rfl := ofKey?_eq_some_iff.mp hkey
      have hne {g : Field} (h : g ≠ f) : f.key ≠ g.key := by
        intro heq
        rw [ofKey?_eq_some_iff.mpr heq] at hkey
        exact h (Option.some.inj hkey)
      dsimp only
      constructor
      · intro h g
        split at h
        · cases h
        · next hhas =>
          obtain ⟨x, hx, hcollect⟩ := Option.bind_eq_some_iff.mp h
          have hall := ih.mp hcollect
          by_cases hg : g = f
          · subst hg
            exact collected_cons_self.mpr ⟨Bool.eq_false_iff.mpr hhas, x, hx, hall g⟩
          · exact (collected_cons_of_ne (hne hg)).mpr ((collected_set_of_ne hg x).mp (hall g))
      · intro h
        obtain ⟨hhas, x, hx, hself⟩ := collected_cons_self.mp (h f)
        rw [if_neg (Bool.eq_false_iff.mp hhas), hx]
        refine ih.mpr fun g => ?_
        by_cases hg : g = f
        · subst hg
          exact hself
        · exact (collected_set_of_ne hg x).mpr ((collected_cons_of_ne (hne hg)).mp (h g))

/-- The lease that fields hold. -/
def leaseOf? (fields : List (String × Document)) : Option Lease :=
  (collect .empty fields).bind fun d => d.finish.toOption

theorem leaseOf?_eq_some_iff {fields : List (String × Document)} :
    leaseOf? fields = some l ↔ HoldsLease fields l := by
  have hempty (f : Field) : Draft.empty.has f = false := by
    rw [Draft.has_eq, Draft.get?_empty]
    rfl
  rw [leaseOf?, Option.bind_eq_some_iff]
  simp only [collect_eq_some_iff, toOption_eq_some_iff, Draft.finish_eq_ok_iff]
  constructor
  · rintro ⟨d, hcollected, hfinish⟩
    refine ⟨fun f => ?_, fun f v hv => ?_, fun f hf => ?_⟩
    · exact Nat.le_trans (Nat.le_add_right _ _) (hcollected f).once
    · obtain ⟨x, hx, hget⟩ := (hcollected f).present v hv
      rw [holds_iff, hx, (hfinish f).1 x hget]
    · refine (hfinish f).2 ?_
      rw [(hcollected f).absent hf, Draft.get?_empty]
  · intro h
    refine ⟨.ofLease l fun f => f.key ∈ fields.map (·.1), fun f => ?_, fun f => ?_⟩
    · refine ⟨?_, fun v hv => ?_, fun hf => ?_⟩
      · rw [hempty]
        exact h.once f
      · have hmem : f.key ∈ fields.map (·.1) := List.mem_map_of_mem hv
        refine ⟨f.ofLease l, (holds_iff f v l).mp (h.present f v hv), ?_⟩
        rw [Draft.get?_ofLease, if_pos (decide_eq_true hmem)]
      · rw [Draft.get?_ofLease, if_neg (by simpa using hf), Draft.get?_empty]
    · rw [Draft.get?_ofLease]
      by_cases hf : f.key ∈ fields.map (·.1)
      · rw [if_pos (decide_eq_true hf)]
        exact ⟨fun x hx => (Option.some.inj hx).symm, nofun⟩
      · rw [if_neg (by simpa using hf)]
        exact ⟨nofun, fun _ => h.absent f hf⟩

/-- The lease that a record holds. -/
def lease? : Document → Option Lease
  | .object fields => leaseOf? fields
  | .array vs => if 3 ≤ vs.length ∧ vs.length ≤ 6 then leaseOf? (declared vs) else none
  | _ => none

theorem lease?_eq_some_iff : lease? v = some l ↔ IsRecord v l := by
  constructor
  · intro h
    cases v with
    | object fields => exact .object (leaseOf?_eq_some_iff.mp h)
    | array vs =>
      rw [lease?] at h
      split at h
      · next hlength => exact .array hlength.1 hlength.2 (leaseOf?_eq_some_iff.mp h)
      · cases h
    | _ => cases h
  · intro h
    cases h with
    | object h => exact leaseOf?_eq_some_iff.mpr h
    | array hmin hmax h => exact (if_pos ⟨hmin, hmax⟩).trans (leaseOf?_eq_some_iff.mpr h)

/-- The leases that a file holds. -/
def leases? : Document → Option LeaseSet
  | .array vs => vs.mapM lease?
  | _ => none

theorem mapM_lease?_eq_some_iff {vs : List Document} {ls : LeaseSet} :
    vs.mapM lease? = some ls ↔ List.Forall₂ IsRecord vs ls := by
  rw [Text.mapM_eq_some_iff]
  simp only [lease?_eq_some_iff]

theorem leases?_eq_some_iff {ls : LeaseSet} : leases? v = some ls ↔ IsLeaseFile v ls := by
  constructor
  · intro h
    cases v with
    | array vs => exact ⟨vs, rfl, mapM_lease?_eq_some_iff.mp h⟩
    | _ => cases h
  · rintro ⟨vs, rfl, h⟩
    exact mapM_lease?_eq_some_iff.mpr h

end LeaseKeeper.LeaseFile
