/-
Vendor tables as they are written.

An entry of a table names three octets and their vendor, and has a line in one of two forms, with
or without dashes.  The vendor is any text that is on one line and is not blank.

* `Entry.Writes` — the lines of an entry;
* `Entry.IsConcealed`, `assignment?_of_writes` — a line assigns what its entry says, unless it has
  no dashes and the vendor holds the marker of the lines with dashes, for which the whole line is
  searched first: such a line assigns nothing;
* `find?_listing` — so a table finds the vendor of the first entry that is not concealed.
-/
import LeaseKeeper.Proofs.Text.Hexadecimal
import LeaseKeeper.Proofs.VendorTable

namespace LeaseKeeper.VendorTable

/-- The two forms of a line. -/
inductive LineForm
  | dashed
  | plain
  deriving DecidableEq

namespace LineForm

def marker : LineForm → List Char
  | dashed => dashedMarker
  | plain => plainMarker

/-- The digits of three octets, in small letters. -/
def digits : LineForm → OctetTriple → List Char
  | dashed, k => List.intercalate ['-'] (k.octets.map Text.hexPair)
  | plain, k => k.octets.flatMap Text.hexPair

end LineForm

/-- Three octets, their vendor, and the form of the line that says so. -/
structure Entry where
  form : LineForm
  triple : OctetTriple
  vendor : List Char
  oneLine : '\n' ∉ vendor
  visible : Text.trim vendor ≠ []

/-- Blanks within a line. -/
def IsGap (s : List Char) : Prop := ∀ c ∈ s, Text.isBlank c = true ∧ c ≠ '\n'

namespace Entry

/-- The lines of an entry: the digits of the octets in either case, the marker and the vendor, with
any blanks between them. -/
def Writes (e : Entry) (line : List Char) : Prop :=
  ∃ digits gap gap', digits.map Char.toLower = e.form.digits e.triple ∧ IsGap gap ∧ IsGap gap' ∧
    line = digits ++ gap ++ (e.form.marker ++ (gap' ++ e.vendor))

/-- The name of the vendor. -/
def name (e : Entry) : String := String.ofList (Text.trim e.vendor)

/-- A line without dashes whose vendor holds the marker of the lines with dashes. -/
def IsConcealed (e : Entry) : Prop := e.form = .plain ∧ dashedMarker <:+: e.vendor

instance (e : Entry) : Decidable e.IsConcealed := inferInstanceAs (Decidable (_ ∧ _))

/-- What is read from a line of an entry. -/
def assignment? (e : Entry) : Option (OctetTriple × String) :=
  if e.IsConcealed then none else some (e.triple, e.name)

end Entry

variable {s front back gap line text : List Char} {form : LineForm} {k : OctetTriple} {c : Char}
  {e : Entry} {es : List Entry}

/-! ### Digits -/

/-- Without its dashes, every line has the same digits. -/
theorem filter_digits (form : LineForm) (k : OctetTriple) :
    (form.digits k).filter (· ≠ '-') = k.octets.flatMap Text.hexPair := by
  have hpair (b : UInt8) : (Text.hexPair b).filter (· ≠ '-') = Text.hexPair b :=
    List.filter_eq_self.mpr (Text.forall_mem_hexPair (by decide) b)
  cases form with
  | dashed =>
    show (Text.hexPair k.first ++ (['-'] ++ (Text.hexPair k.second ++ (['-'] ++
      (Text.hexPair k.third ++ []))))).filter (· ≠ '-') = _
    simp only [List.filter_append, hpair]
    rfl
  | plain =>
    show (Text.hexPair k.first ++ (Text.hexPair k.second ++ (Text.hexPair k.third ++ []))).filter
      (· ≠ '-') = _
    simp only [List.filter_append, hpair]
    rfl

theorem mem_digits (h : c ∈ form.digits k) : c ≠ '(' ∧ Text.isBlank c = false := by
  by_cases hdash : c = '-'
  · rw [hdash]
    decide
  · have hmem : c ∈ (form.digits k).filter (· ≠ '-') :=
      List.mem_filter.mpr ⟨h, decide_eq_true hdash⟩
    rw [filter_digits] at hmem
    obtain ⟨b, -, hc⟩ := List.mem_flatMap.mp hmem
    exact Text.forall_mem_hexPair (p := fun c => c ≠ '(' ∧ Text.isBlank c = false)
      (by decide) b c hc

theorem mem_of_map_toLower (h : s.map Char.toLower = form.digits k) (hc : c ∈ s) :
    c ≠ '(' ∧ Text.isBlank c = false := by
  have hlower : c.toLower ∈ form.digits k := h ▸ List.mem_map_of_mem hc
  obtain ⟨hparen, hblank⟩ := mem_digits hlower
  rw [Text.isBlank_toLower] at hblank
  exact ⟨fun heq => hparen ((Text.toLower_eq_iff rfl).mpr heq), hblank⟩

/-- The digits are read as the octets, in either form and either case. -/
theorem triple?_eq_some (h : s.map Char.toLower = form.digits k) : triple? s = some k := by
  have hdash (c : Char) : decide (c.toLower ≠ '-') = decide (c ≠ '-') :=
    decide_eq_decide.mpr (not_congr (Text.toLower_eq_iff rfl))
  have hlower : (s.filter (· ≠ '-')).map Char.toLower = k.octets.flatMap Text.hexPair := by
    rw [← filter_digits form, ← h, List.filter_map]
    simp only [Function.comp_def, hdash]
  have hvalue {b : UInt8} : Text.hexDigit? (Text.hexDigit (b.toNat / 16)) = some (b.toNat / 16) ∧
      Text.hexDigit? (Text.hexDigit (b.toNat % 16)) = some (b.toNat % 16) := by
    have hb := b.toNat_lt
    exact ⟨Text.hexDigit?_hexDigit (by omega), Text.hexDigit?_hexDigit (by omega)⟩
  have hread : (s.filter (· ≠ '-')).mapM Text.hexDigit? =
      some (k.octets.flatMap fun b => [b.toNat / 16, b.toNat % 16]) := by
    have hsmall : List.Forall₂ (fun c n => Text.hexDigit? c = some n)
        ((s.filter (· ≠ '-')).map Char.toLower)
        (k.octets.flatMap fun b => [b.toNat / 16, b.toNat % 16]) := by
      rw [hlower]
      simp [OctetTriple.octets, Text.hexPair, hvalue]
    simp only [List.forall₂_map_left_iff, Text.hexDigit?_toLower] at hsmall
    exact Text.mapM_eq_some_iff.mpr hsmall
  rw [triple?, hread]
  simp only [OctetTriple.octets, List.flatMap_cons, List.flatMap_nil, List.cons_append,
    List.nil_append, Text.ofNat_halves]

theorem triple?_eq_none (h : '(' ∈ s) : triple? s = none := by
  have hmem : '(' ∈ s.filter (· ≠ '-') := List.mem_filter.mpr ⟨h, rfl⟩
  rw [triple?]
  cases hread : (s.filter (· ≠ '-')).mapM Text.hexDigit? with
  | none => rfl
  | some ns => exact absurd rfl (Text.ne_none_of_mapM hread hmem)

/-! ### Lines -/

/-- In a line without dashes, only the vendor can hold the marker of the lines with dashes. -/
theorem cut?_dashedMarker (h : '(' ∉ front) (hgap : '(' ∉ gap) (s : List Char) :
    Text.cut? dashedMarker (front ++ (plainMarker ++ (gap ++ s))) =
      (Text.cut? dashedMarker s).map fun (before, after) =>
        (front ++ (plainMarker ++ (gap ++ before)), after) := by
  have hmarker : plainMarker = '(' :: plainMarker.tail := rfl
  have htail : '(' ∉ plainMarker.tail ++ gap := by
    rw [List.mem_append, not_or]
    exact ⟨by decide, hgap⟩
  have hstart : ¬dashedMarker <+: '(' :: (plainMarker.tail ++ gap ++ s) := by
    simp [dashedMarker, plainMarker]
  have hback : Text.cut? dashedMarker (plainMarker ++ (gap ++ s)) =
      (Text.cut? dashedMarker s).map fun (before, after) =>
        (plainMarker ++ (gap ++ before), after) := by
    rw [hmarker, List.cons_append, ← List.append_assoc, Text.cut?, if_neg hstart, dashedMarker,
      Text.cut?_append_of_notMem htail, Option.map_map]
    simp only [Function.comp_def, List.append_assoc, List.cons_append]
  rw [dashedMarker, Text.cut?_append_of_notMem h, ← dashedMarker, hback, Option.map_map]
  rfl

theorem atMarker?_dashed (h : '(' ∉ front) (back : List Char) :
    atMarker? (front ++ (dashedMarker ++ back)) = some (front, back) := by
  rw [atMarker?, dashedMarker, Text.cut?_append_cons h, Option.some_or]

theorem atMarker?_plain (h : '(' ∉ front) (hgap : '(' ∉ gap) (hs : ¬dashedMarker <:+: s) :
    atMarker? (front ++ (plainMarker ++ (gap ++ s))) = some (front, gap ++ s) := by
  rw [atMarker?, cut?_dashedMarker h hgap, Text.cut?_eq_none hs, Option.map_none, Option.none_or,
    plainMarker, Text.cut?_append_cons h]

theorem exists_atMarker?_plain (h : '(' ∉ front) (hgap : '(' ∉ gap) (hs : dashedMarker <:+: s) :
    ∃ before after, atMarker? (front ++ (plainMarker ++ (gap ++ s))) =
      some (front ++ (plainMarker ++ before), after) := by
  obtain ⟨before, after, hcut⟩ := Text.exists_cut?_of_infix hs
  refine ⟨gap ++ before, after, ?_⟩
  rw [atMarker?, cut?_dashedMarker h hgap, hcut, Option.map_some, Option.some_or]

theorem assignment?_eq_some (hcut : atMarker? line = some (front, back))
    (hfront : triple? (Text.trim front) = some k) (hback : Text.trim back ≠ []) :
    assignment? line = some (k, String.ofList (Text.trim back)) := by
  simp only [assignment?, hcut, hfront, Option.bind_eq_bind, Option.bind_some, if_neg hback]

/-- A parenthesis does not belong to the digits. -/
theorem assignment?_eq_none (hcut : atMarker? line = some (front, back)) (hfront : '(' ∈ front) :
    assignment? line = none := by
  have hread : triple? (Text.trim front) = none := triple?_eq_none (Text.mem_trim rfl hfront)
  simp only [assignment?, hcut, hread, Option.bind_eq_bind, Option.bind_some, Option.bind_none]

theorem IsGap.notMem (h : IsGap s) (hc : Text.isBlank c = false) : c ∉ s := by
  intro hmem
  rw [(h c hmem).1] at hc
  cases hc

/-- A line assigns what its entry says, unless the entry is concealed. -/
theorem assignment?_of_writes (h : e.Writes line) : assignment? line = e.assignment? := by
  obtain ⟨digits, gap, gap', hdigits, hgap, hgap', rfl⟩ := h
  have hfront : '(' ∉ digits ++ gap := by
    rw [List.mem_append, not_or]
    exact ⟨fun hmem => (mem_of_map_toLower hdigits hmem).1 rfl, hgap.notMem rfl⟩
  have htriple : triple? (Text.trim (digits ++ gap)) = some e.triple := by
    rw [Text.trim_append_right fun c hc => (hgap c hc).1,
      Text.trim_eq_self fun c hc => (mem_of_map_toLower hdigits hc).2]
    exact triple?_eq_some hdigits
  have hname : Text.trim (gap' ++ e.vendor) = Text.trim e.vendor :=
    Text.trim_append_left (fun c hc => (hgap' c hc).1) e.vendor
  have hvisible : Text.trim (gap' ++ e.vendor) ≠ [] := hname ▸ e.visible
  have hread (hcut : atMarker? (digits ++ gap ++ (e.form.marker ++ (gap' ++ e.vendor))) =
      some (digits ++ gap, gap' ++ e.vendor)) :
      assignment? (digits ++ gap ++ (e.form.marker ++ (gap' ++ e.vendor))) =
        some (e.triple, e.name) := by
    rw [assignment?_eq_some hcut htriple hvisible, hname]
    rfl
  rw [Entry.assignment?]
  cases hform : e.form with
  | dashed =>
    have hshown : ¬e.IsConcealed := fun hconcealed => by
      rw [hconcealed.1] at hform
      cases hform
    rw [hform] at hread
    rw [if_neg hshown]
    exact hread (atMarker?_dashed hfront _)
  | plain =>
    rw [hform] at hread
    by_cases hmarker : dashedMarker <:+: e.vendor
    · obtain ⟨before, after, hcut⟩ := exists_atMarker?_plain hfront (hgap'.notMem rfl) hmarker
      rw [if_pos ⟨hform, hmarker⟩]
      exact assignment?_eq_none hcut
        (List.mem_append_right _ (List.mem_append_left _ List.mem_cons_self))
    · rw [if_neg fun hconcealed => hmarker hconcealed.2]
      exact hread (atMarker?_plain hfront (hgap'.notMem rfl) hmarker)

theorem lineFeed_notMem_of_writes (h : e.Writes line) : '\n' ∉ line := by
  obtain ⟨digits, gap, gap', hdigits, hgap, hgap', rfl⟩ := h
  have hmarker : '\n' ∉ e.form.marker := by cases e.form <;> decide
  simp only [List.mem_append, not_or]
  refine ⟨⟨fun hmem => ?_, fun hmem => (hgap _ hmem).2 rfl⟩, hmarker,
    fun hmem => (hgap' _ hmem).2 rfl, e.oneLine⟩
  exact absurd (mem_of_map_toLower hdigits hmem).2 (by decide)

/-! ### Tables -/

/-- A table of entries in their order, each on a line; there may be a line feed after the last. -/
inductive Listing : List Entry → List Char → Prop
  | nil : Listing [] []
  | last {e : Entry} {line : List Char} : e.Writes line → Listing [e] line
  | cons {e : Entry} {es : List Entry} {line text : List Char} : e.Writes line →
    Listing es text → Listing (e :: es) (line ++ '\n' :: text)

theorem filterMap_fields_listing (h : Listing es text) :
    (Text.fields (· == '\n') text).filterMap assignment? = es.filterMap Entry.assignment? := by
  induction h with
  | nil => rfl
  | last hline =>
    rw [Text.fields_of_notMem (lineFeed_notMem_of_writes hline), List.filterMap_cons,
      List.filterMap_cons, assignment?_of_writes hline]
    rfl
  | cons hline _ ih =>
    rw [Text.fields_append_cons rfl, Text.fields_of_notMem (lineFeed_notMem_of_writes hline),
      List.singleton_append, List.filterMap_cons, List.filterMap_cons, ih,
      assignment?_of_writes hline]

theorem vendorOf?_entries (es : List Entry) (k : OctetTriple) :
    vendorOf? ⟨es.filterMap Entry.assignment?⟩ k =
      (es.find? fun e => e.triple = k ∧ ¬e.IsConcealed).map Entry.name := by
  induction es with
  | nil => rfl
  | cons e es ih =>
    by_cases hconcealed : e.IsConcealed
    · have hnone : e.assignment? = none := if_pos hconcealed
      rw [List.filterMap_cons_none hnone, ih, List.find?_cons_of_neg]
      simp [hconcealed]
    · have hsome : e.assignment? = some (e.triple, e.name) := if_neg hconcealed
      rw [List.filterMap_cons_some hsome]
      by_cases hk : e.triple = k
      · rw [vendorOf?, List.find?_cons_of_pos (by simp [hk]),
          List.find?_cons_of_pos (by simp [hk, hconcealed])]
        rfl
      · rw [List.find?_cons_of_neg (by simp [hk]), ← ih, vendorOf?,
          List.find?_cons_of_neg (by simp [hk])]
        rfl

/-- **What a table of vendors knows.**  Of all entries with the first three octets of an address,
in either form and either case, the first that is not concealed gives the vendor, without the blanks
at its ends; there is no vendor if all of them are concealed.  So if no entry is concealed, the
first of them counts. -/
theorem find?_listing (h : Listing es text) :
    (∀ a, (ofText text).find? a =
      (es.find? fun e => e.triple = a.vendor ∧ ¬e.IsConcealed).map Entry.name) ∧
    (∀ a, (ofText text).find? a = none ↔ ∀ e ∈ es, e.triple = a.vendor → e.IsConcealed) ∧
    ((∀ e ∈ es, ¬e.IsConcealed) →
      ∀ a, (ofText text).find? a = (es.find? fun e => e.triple = a.vendor).map Entry.name) ∧
    ofBytes (Text.Utf8.encode text) = ofText text := by
  have hfind (a : HardwareAddress) : (ofText text).find? a =
      (es.find? fun e => e.triple = a.vendor ∧ ¬e.IsConcealed).map Entry.name := by
    rw [find?, ofText, filterMap_fields_listing h, vendorOf?_foldl_assign, ← vendorOf?_entries]
    rfl
  refine ⟨hfind, fun a => ?_, fun hshown a => ?_, ?_⟩
  · rw [hfind, Option.map_eq_none_iff, List.find?_eq_none]
    simp only [decide_eq_true_eq, not_and, not_not]
  · rw [hfind, ← List.head?_filter, ← List.head?_filter]
    refine congrArg (fun found => (List.head? found).map Entry.name) (List.filter_congr ?_)
    intro e he
    simp [hshown e he]
  · rw [ofBytes, Text.Utf8.decodeLossy_encode]

/-- An entry without dashes whose vendor holds the other marker. -/
def plainWithMarker : Entry :=
  ⟨.plain, ⟨0x00, 0x1A, 0x2B⟩, "Foo (hex) Bar".toList, by decide, by decide⟩

/-- An entry with dashes whose vendor holds the other marker. -/
def dashedWithMarker : Entry :=
  ⟨.dashed, ⟨0x00, 0x1A, 0x2B⟩, "V (base 16) W".toList, by decide, by decide⟩

/-- The first line is passed over, and the second counts though it holds the other marker. -/
theorem find?_listing_concealed :
    let a : HardwareAddress := ⟨⟨0x00, 0x1A, 0x2B⟩, ⟨0x3C, 0x4D, 0x5E⟩⟩
    let line := "001A2B (base 16) Foo (hex) Bar".toList
    let text := line ++ '\n' :: "00-1a-2b\t(hex)\tV (base 16) W".toList
    Listing [plainWithMarker] line ∧ (ofText line).find? a = none ∧
    Listing [plainWithMarker, dashedWithMarker] text ∧
    (ofText text).find? a = some "V (base 16) W" := by
  intro a line text
  have hspace : IsGap [' '] := List.forall_mem_singleton.mpr (by decide)
  have htab : IsGap ['\t'] := List.forall_mem_singleton.mpr (by decide)
  have hplain : plainWithMarker.Writes line :=
    ⟨"001A2B".toList, [' '], [' '], by decide, hspace, hspace, by decide⟩
  have hdashed : dashedWithMarker.Writes "00-1a-2b\t(hex)\tV (base 16) W".toList :=
    ⟨"00-1a-2b".toList, ['\t'], ['\t'], by decide, htab, htab, by decide⟩
  have hone : Listing [plainWithMarker] line := .last hplain
  have htwo : Listing [plainWithMarker, dashedWithMarker] text := .cons hplain (.last hdashed)
  refine ⟨hone, ?_, htwo, ?_⟩
  · rw [(find?_listing hone).1]
    decide
  · rw [(find?_listing htwo).1]
    decide

end LeaseKeeper.VendorTable
