/-
The expiry of a lease means the same instant in every spelling.

* `OpenRecord` — a record of either form without the text of its expiry;
* `holdsLease_expiry_iff`, `isRecord_fill_iff` — such a record with a text in its place holds what
  it holds as it is, and the expiry that the text stands for;
* `holds_expiry_of_spells` — a text of an instant stands for this instant, or for no expiry up to
  the zero time;
* `decode_of_spells` — so a file is read alike whatever the offset, the separator and the digits
  with which the instants in it are written.
-/
import LeaseKeeper.Proofs.LeaseFile.Reading
import LeaseKeeper.Proofs.Time.Spelling

namespace LeaseKeeper.LeaseFile

open Json (Document Writes byte)

variable {fields fields' : List (String × Document)} {v : Document} {l : Lease}

/-- A record that waits for the text of its expiry: an object with the place of it among the other
fields, or a list that lacks only the last value. -/
inductive OpenRecord where
  | object (before after : List (String × Document)) :
    Field.expiry.key ∉ (before ++ after).map (·.1) → OpenRecord
  | array (vs : List Document) : vs.length = 5 → OpenRecord

namespace OpenRecord

/-- The record with a text in the place of the expiry. -/
def fill (text : String) : OpenRecord → Document
  | .object before after _ => .object (before ++ (Field.expiry.key, .string text) :: after)
  | .array vs _ => .array (vs ++ [.string text])

/-- The record without an expiry. -/
def bare : OpenRecord → Document
  | .object before after _ => .object (before ++ after)
  | .array vs _ => .array vs

end OpenRecord

/-! ### Fields -/

/-- Which lease is held does not depend on the order of the fields. -/
theorem HoldsLease.perm (h : HoldsLease fields l) (hperm : fields.Perm fields') :
    HoldsLease fields' l := by
  have hkeys := hperm.map (·.1)
  constructor
  · intro f
    rw [← hkeys.count_eq]
    exact h.once f
  · intro f v hv
    exact h.present f v (hperm.mem_iff.mpr hv)
  · intro f hf
    exact h.absent f fun hmem => hf (hkeys.mem_iff.mp hmem)

theorem holdsLease_perm_iff (hperm : fields.Perm fields') :
    HoldsLease fields l ↔ HoldsLease fields' l :=
  ⟨fun h => h.perm hperm, fun h => h.perm hperm.symm⟩

theorem key_inj {f g : Field} (h : f.key = g.key) : f = g := by
  have hkey := ofKey?_key f
  rw [h, ofKey?_key] at hkey
  exact (Option.some.inj hkey).symm

/-- No other field depends on the expiry. -/
theorem holds_static_iff {f : Field} (hf : f ≠ .expiry) :
    f.Holds v { l with expiry := none } ↔ f.Holds v l := by
  rw [holds_iff, holds_iff]
  cases f with
  | expiry => exact absurd rfl hf
  | _ => rfl

theorem defaults_static_iff {f : Field} (hf : f ≠ .expiry) :
    f.Defaults { l with expiry := none } ↔ f.Defaults l := by
  cases f with
  | expiry => exact absurd rfl hf
  | _ => rfl

theorem holdsLease_expiry_iff (hnew : Field.expiry.key ∉ fields.map (·.1)) :
    HoldsLease ((Field.expiry.key, v) :: fields) l ↔
      HoldsLease fields { l with expiry := none } ∧ Field.expiry.Holds v l := by
  have hkey {f : Field} (hf : f ≠ .expiry) : Field.expiry.key ≠ f.key :=
    fun h => hf (key_inj h).symm
  constructor
  · intro h
    refine ⟨⟨fun f => ?_, fun f w hw => ?_, fun f hf => ?_⟩, h.present .expiry v List.mem_cons_self⟩
    · exact Nat.le_trans List.count_le_count_cons (h.once f)
    · have hne : f ≠ .expiry := by
        rintro rfl
        exact hnew (List.mem_map_of_mem hw)
      exact (holds_static_iff hne).mpr (h.present f w (List.mem_cons_of_mem _ hw))
    · by_cases hexpiry : f = .expiry
      · subst hexpiry
        rfl
      · refine (defaults_static_iff hexpiry).mpr (h.absent f fun hmem => ?_)
        rcases List.mem_cons.mp hmem with heq | hmem
        · exact hkey hexpiry heq.symm
        · exact hf hmem
  · rintro ⟨h, hv⟩
    refine ⟨fun f => ?_, fun f w hw => ?_, fun f hf => ?_⟩
    · by_cases hexpiry : f = .expiry
      · subst hexpiry
        exact Nat.le_of_eq (List.count_cons_self.trans (by rw [List.count_eq_zero.mpr hnew]))
      · rw [List.map_cons, List.count_cons_of_ne (hkey hexpiry)]
        exact h.once f
    · rcases List.mem_cons.mp hw with heq | hw
      · obtain ⟨hf, rfl⟩ := Prod.mk.inj heq
        rwa [key_inj hf]
      · have hne : f ≠ .expiry := by
          rintro rfl
          exact hnew (List.mem_map_of_mem hw)
        exact (holds_static_iff hne).mp (h.present f w hw)
    · have hne : f ≠ .expiry := by
        rintro rfl
        exact hf List.mem_cons_self
      exact (defaults_static_iff hne).mp (h.absent f fun hmem => hf (List.mem_cons_of_mem _ hmem))

/-! ### Records -/

/-- The last of six values is the expiry. -/
theorem declared_append {vs : List Document} (h : vs.length = 5) (v : Document) :
    declared (vs ++ [v]) = declared vs ++ [(Field.expiry.key, v)] := by
  match vs, h with
  | [_, _, _, _, _], _ => rfl

theorem expiry_not_mem_declared {vs : List Document} (h : vs.length = 5) :
    Field.expiry.key ∉ (declared vs).map (·.1) := by
  match vs, h with
  | [_, _, _, _, _], _ =>
    show Field.expiry.key ∉ (Field.all.map Field.key).take 5
    decide

/-- Texts in the place of the expiry matter as much as they are read. -/
theorem isRecord_fill_iff (r : OpenRecord) (text : String) : IsRecord (r.fill text) l ↔
    IsRecord r.bare { l with expiry := none } ∧ Field.expiry.Holds (.string text) l := by
  cases r with
  | object before after hnew =>
    have hfields : HoldsLease (before ++ (Field.expiry.key, .string text) :: after) l ↔ _ :=
      (holdsLease_perm_iff List.perm_middle).trans (holdsLease_expiry_iff hnew)
    constructor
    · intro h
      cases h with
      | object h =>
        obtain ⟨hbare, htext⟩ := hfields.mp h
        exact ⟨.object hbare, htext⟩
    · rintro ⟨hbare, htext⟩
      cases hbare with
      | object hbare => exact .object (hfields.mpr ⟨hbare, htext⟩)
  | array vs hlength =>
    have hfields : HoldsLease (declared vs ++ [(Field.expiry.key, .string text)]) l ↔ _ :=
      (holdsLease_perm_iff (List.perm_append_singleton _ _)).trans
        (holdsLease_expiry_iff (expiry_not_mem_declared hlength))
    rw [← declared_append hlength] at hfields
    constructor
    · intro h
      cases h with
      | array _ _ h =>
        obtain ⟨hbare, htext⟩ := hfields.mp h
        exact ⟨.array (by omega) (by omega) hbare, htext⟩
    · rintro ⟨hbare, htext⟩
      have hsix : (vs ++ [Document.string text]).length = 6 := by simp [hlength]
      cases hbare with
      | array _ _ hbare =>
        exact .array (by omega) (by omega) (hfields.mpr ⟨hbare, htext⟩)

/-- A record without an expiry holds a static lease. -/
theorem expiry_of_bare {r : OpenRecord} (h : IsRecord r.bare l) : l.expiry = none := by
  cases r with
  | object before after hnew =>
    cases h with
    | object h => exact h.absent .expiry hnew
  | array vs hlength =>
    cases h with
    | array _ _ h => exact h.absent .expiry (expiry_not_mem_declared hlength)

/-! ### Spellings -/

variable {t : Instant} {offset : Int} {text : String}

theorem holds_expiry_of_spells (h : Rfc3339.Spells t offset text.toList) :
    Field.expiry.Holds (.string text) l ↔
      l.expiry = if t.seconds ≤ zeroTime then none else some t := by
  have hread := Rfc3339.read_spells h
  constructor
  · rintro ⟨u, hu, hl⟩
    obtain rfl : t = u := Except.ok.inj (hread.symm.trans hu)
    exact hl
  · intro hl
    exact ⟨t, hread, hl⟩

/-- The record holds what it holds without an expiry, and runs out at the instant. -/
theorem isRecord_fill_of_spells (h : Rfc3339.Spells t offset text.toList) (r : OpenRecord) :
    IsRecord (r.fill text) l ↔ ∃ k, IsRecord r.bare k ∧
      l = { k with expiry := if t.seconds ≤ zeroTime then none else some t } := by
  rw [isRecord_fill_iff, holds_expiry_of_spells h]
  constructor
  · rintro ⟨hbare, hl⟩
    refine ⟨_, hbare, ?_⟩
    rw [← hl]
  · rintro ⟨k, hbare, rfl⟩
    have hk : { k with expiry := none } = k := by
      rw [← expiry_of_bare hbare]
    rw [hk]
    exact ⟨hbare, rfl⟩

/-- The leases of a file with such a record among others. -/
theorem isLeaseFile_fill_iff (h : Rfc3339.Spells t offset text.toList) (r : OpenRecord)
    (before after : List Document) (s : LeaseSet) :
    IsLeaseFile (.array (before ++ r.fill text :: after)) s ↔ ∃ ls l ls',
      List.Forall₂ IsRecord before ls ∧ IsRecord r.bare l ∧ List.Forall₂ IsRecord after ls' ∧
      s = ls ++ { l with expiry := if t.seconds ≤ zeroTime then none else some t } :: ls' := by
  constructor
  · rintro ⟨vs, hvs, hrecords⟩
    cases hvs
    have hbefore := (List.forall₂_take_append _ _ _ hrecords.flip).flip
    have hrest := (List.forall₂_drop_append _ _ _ hrecords.flip).flip
    obtain ⟨k, ls', hrecord, hafter, hdrop⟩ := List.forall₂_cons_left_iff.mp hrest
    obtain ⟨l, hbare, rfl⟩ := (isRecord_fill_of_spells h r).mp hrecord
    refine ⟨_, l, ls', hbefore, hbare, hafter, ?_⟩
    rw [← hdrop, List.take_append_drop]
  · rintro ⟨ls, l, ls', hbefore, hbare, hafter, rfl⟩
    have hrecord := (isRecord_fill_of_spells h r).mpr ⟨l, hbare, rfl⟩
    exact ⟨_, rfl, List.rel_append hbefore (.cons hrecord hafter)⟩

/-! ### A lease that runs out in a leap second -/

/-- A quarter of a second into the leap second at the end of 2016. -/
def leapSecond : Instant where
  seconds := 1483228799
  nanos := 1250000000
  nanos_lt := by decide
  leap_ends_minute _ := by decide

def leapSecondLease : Lease :=
  ⟨1, .ofOctets 10 0 0 1, ⟨⟨0x02, 0x00, 0x00⟩, ⟨0x00, 0x00, 0x01⟩⟩, "", "", some leapSecond⟩

/-- A list that lacks the expiry. -/
def leapSecondRecord : OpenRecord :=
  .array [.number ⟨false, 1, none, none⟩, .string "10.0.0.1", .string "02:00:00:00:00:01",
    .string "", .string ""] rfl

/-- The text of the leap second by a clock that is five and a half hours ahead of UTC. -/
def leapSecondText : String := "2017-01-01 05:29:60.25+05:30"

theorem spells_leapSecondText : Rfc3339.Spells leapSecond 330 leapSecondText.toList := by
  have hfraction : Rfc3339.SpellsFraction leapSecond.civil.nanos _ :=
    @Rfc3339.spellsFraction_padded 2 25 (by decide) (by decide) (by decide)
  have hoffset : Rfc3339.SpellsOffset 330 _ := @Rfc3339.SpellsOffset.ahead 330 (by decide)
  have hspace : ' ' ∈ ['T', 't', ' '] := by decide
  have h : Rfc3339.Spells leapSecond 330 _ :=
    .mk (by decide) (by decide) hspace hfraction hoffset
  refine Eq.subst (motive := Rfc3339.Spells leapSecond 330) ?_ h
  decide +kernel

/-- A file with nothing but this record. -/
def leapSecondFile : List UInt8 :=
  ("[[1,\"10.0.0.1\",\"02:00:00:00:00:01\",\"\",\"\",\"" ++ leapSecondText ++ "\"]]").toList.map byte

theorem isText_leapSecondFile :
    Json.IsText (.array [leapSecondRecord.fill leapSecondText]) leapSecondFile := by
  have hplain {s : String}
      (h : s.toList.all (fun c => c ≠ '"' ∧ c ≠ '\\' ∧ 0x20 ≤ c.toNat) = true) :
      Writes (.string s) _ := .string (.plain h)
  have hrecord : Writes (.array [.number ⟨false, 1, none, none⟩, .string "10.0.0.1",
      .string "02:00:00:00:00:01", .string "", .string "", .string leapSecondText]) _ :=
    .array (.items Json.blank_nil (.number _)
      (.more Json.blank_nil Json.blank_nil (hplain (by decide))
        (.more Json.blank_nil Json.blank_nil (hplain (by decide))
          (.more Json.blank_nil Json.blank_nil (hplain (by decide))
            (.more Json.blank_nil Json.blank_nil (hplain (by decide))
              (.more Json.blank_nil Json.blank_nil (hplain (by decide)) (.done Json.blank_nil)))))))
  refine ⟨[], _, [], Json.blank_nil, .array (.items Json.blank_nil hrecord (.done Json.blank_nil)),
    Json.blank_nil, ?_⟩
  decide +kernel

/-! ### Offsets -/

/-- **An expiry means the same instant in every offset.**  In a file whose records have the text of
an instant by any clock, with any separator and any fraction that stands for its nanoseconds, the
record is read as it is without an expiry, and runs out at that instant; up to the zero time it
never does.  So all the spellings of the instant load alike. -/
theorem decode_of_spells (h : Rfc3339.Spells t offset text.toList) (r : OpenRecord)
    (before after : List Document) {bytes : List UInt8}
    (hbytes : Json.IsText (.array (before ++ r.fill text :: after)) bytes) :
    (∀ s, decode bytes = .ok s ↔ ∃ ls l ls',
      List.Forall₂ IsRecord before ls ∧ IsRecord r.bare l ∧ List.Forall₂ IsRecord after ls' ∧
      s = ls ++ { l with expiry := if t.seconds ≤ zeroTime then none else some t } :: ls') ∧
    ∀ offset' text' bytes', Rfc3339.Spells t offset' text'.toList →
      Json.IsText (.array (before ++ r.fill text' :: after)) bytes' →
      ∀ s, decode bytes' = .ok s ↔ decode bytes = .ok s := by
  have hdecode := isLeaseFile_fill_iff h r before after
  constructor
  · intro s
    rw [decode_eq_ok_iff_of_isText hbytes, hdecode]
  · intro offset' text' bytes' h' hbytes' s
    rw [decode_eq_ok_iff_of_isText hbytes, decode_eq_ok_iff_of_isText hbytes', hdecode,
      isLeaseFile_fill_iff h' r before after]

theorem decode_leapSecondFile : Rfc3339.Spells leapSecond 330 leapSecondText.toList ∧
    Json.IsText (.array [leapSecondRecord.fill leapSecondText]) leapSecondFile ∧
    decode leapSecondFile = .ok [leapSecondLease] := by
  have hbare : IsRecord leapSecondRecord.bare { leapSecondLease with expiry := none } :=
    lease?_eq_some_iff.mp (by decide +kernel)
  refine ⟨spells_leapSecondText, isText_leapSecondFile, ?_⟩
  refine ((decode_of_spells spells_leapSecondText leapSecondRecord [] []
    isText_leapSecondFile).1 [leapSecondLease]).mpr ?_
  exact ⟨[], _, [], .nil, hbare, .nil, rfl⟩

end LeaseKeeper.LeaseFile
