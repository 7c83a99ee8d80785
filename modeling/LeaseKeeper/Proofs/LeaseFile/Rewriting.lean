/-
A file that has been read is written anew.

* `Draft.Spelled`, `spelled_fieldsWithin`, `spelled_elements` — while a record is read, its expiry
  is one that some text stands for;
* `expiry_of_decode` — so every expiry of a file lies after the zero time, and there is a clock less
  than a day off by which its year has four digits;
* `decode_rewritten` — the leases of a file are written as a file with the same leases, unless one
  of them runs out in the year 10000.

Design notes: the years of a file are those of local time, and what is written is UTC.  They differ
on the last day of the year 9999 by a clock that is behind UTC.
-/
import LeaseKeeper.Proofs.LeaseFile.RoundTrip
import LeaseKeeper.Proofs.LeaseFile.Steps
import LeaseKeeper.Proofs.Time.Spelling

namespace LeaseKeeper.LeaseFile

variable {d e : Draft} {l : Lease} {s rest bytes : List UInt8} {t : Instant}

/-! ### Where an expiry comes from -/

/-- The expiry, if it has been read, is one that a text stands for. -/
def Draft.Spelled (d : Draft) : Prop := ∀ x ∈ d.expiry, ∃ text, expiryOfText text = .ok x

theorem spelled_empty : Draft.empty.Spelled := nofun

theorem spelled_set {f : Field} {x : f.Value} (h : f.read s = .ok (x, rest)) (hd : d.Spelled) :
    (d.set f x).Spelled := by
  cases f with
  | expiry =>
    obtain ⟨text, -, hx⟩ := meant_eq_ok_iff.mp h
    intro y hy
    cases hy
    exact ⟨text, hx⟩
  | _ => exact hd

theorem spelled_fieldsWithin {fuel : Nat} {isFirst : Bool}
    (h : fieldsWithin fuel d isFirst s = .ok (e, rest)) (hd : d.Spelled) : e.Spelled := by
  induction fuel generalizing d isFirst s with
  | zero => cases h
  | succ fuel ih =>
    rcases fieldsWithin_succ_eq_ok_iff.mp h with ⟨-, rfl⟩ | ⟨_, _, _, _, -, -, hfield⟩
    · exact hd
    · rcases hfield with ⟨-, -, hrest⟩ | ⟨f, x, -, -, hx, hrest⟩
      · exact ih hrest hd
      · exact ih hrest (spelled_set hx hd)

theorem spelled_elements {count : Nat} {fs : List Field}
    (h : elements d count fs s = .ok (e, rest)) (hd : d.Spelled) : e.Spelled := by
  induction fs generalizing d count s with
  | nil =>
    cases h
    exact hd
  | cons f fs ih =>
    rcases elements_cons_eq_ok_iff.mp h with ⟨-, -, rfl, -⟩ | ⟨_, x, _, -, hx, hrest⟩
    · exact hd
    · exact ih hrest (spelled_set hx hd)

theorem spelled_finish (h : d.finish = .ok l) (hd : d.Spelled) (ht : t ∈ l.expiry) :
    ∃ text, expiryOfText text = .ok (some t) := by
  obtain ⟨hsome, hnone⟩ := Draft.finish_eq_ok_iff.mp h .expiry
  cases hx : d.get? .expiry with
  | none =>
    have hstatic : l.expiry = none := hnone hx
    rw [hstatic] at ht
    cases ht
  | some x =>
    have hl : x = l.expiry := hsome x hx
    rw [Option.mem_def.mp ht] at hl
    exact hd _ (hl ▸ hx)

theorem spelled_record? (h : record? s = .ok (l, rest)) (ht : t ∈ l.expiry) :
    ∃ text, expiryOfText text = .ok (some t) := by
  rcases record?_eq_ok_iff.mp h with ⟨_, d, -, hd, hl⟩ | ⟨_, d, _, -, hd, hl, -⟩
  · exact spelled_finish hl (spelled_fieldsWithin hd spelled_empty) ht
  · exact spelled_finish hl (spelled_elements hd spelled_empty) ht

theorem spelled_recordsWithin {fuel : Nat} {isFirst : Bool} {ls : List Lease}
    (h : recordsWithin fuel isFirst s = .ok (ls, rest)) (hl : l ∈ ls) (ht : t ∈ l.expiry) :
    ∃ text, expiryOfText text = .ok (some t) := by
  induction fuel generalizing isFirst s ls with
  | zero => cases h
  | succ fuel ih =>
    rcases recordsWithin_succ_eq_ok_iff.mp h with ⟨-, -, rfl⟩ | ⟨_, k, _, ls, -, hk, hls, rfl⟩
    · cases hl
    · rcases List.mem_cons.mp hl with rfl | hl
      · exact spelled_record? hk ht
      · exact ih hls hl

/-! ### Years -/

/-- By the clock of its text, an expiry has a year of four digits. -/
theorem expiry_of_decode {ls : LeaseSet} (h : decode bytes = .ok ls) (hl : l ∈ ls)
    (ht : t ∈ l.expiry) :
    zeroTime < t.seconds ∧ t.seconds < 86400 * Date.firstDay 10000 + 86340 := by
  obtain ⟨_, _, -, hrecords, -⟩ := decode_eq_ok_iff.mp h
  obtain ⟨text, htext⟩ := spelled_recordsWithin hrecords hl ht
  obtain ⟨u, hu, hexpiry⟩ := expiryOfText_eq_ok_iff.mp htext
  split at hexpiry
  · cases hexpiry
  · next hzero =>
    cases hexpiry
    obtain ⟨offset, hspells⟩ := Rfc3339.spells_of_read hu
    have hyear := hspells.year_le
    have hlocal : (t.shift offset).seconds < 86400 * Date.firstDay 10000 := by
      rw [← Instant.year_lt_iff]
      omega
    have hseconds : (t.shift offset).seconds = t.seconds + 60 * offset := rfl
    have hoffset : offset.natAbs < 1440 := hspells.natAbs_lt
    -- The two clocks are less than a day apart.
    constructor <;> omega

/-- **Whether a file that loads can be rewritten.**  What is written of its leases is read as the
same leases, if none of them runs out in the year 10000 of UTC.  A lease that does has an expiry on
the last day of the year 9999 by the clock of its text; then the file that is written is refused. -/
theorem decode_rewritten {ls : LeaseSet} (h : decode bytes = .ok ls) :
    (decode (encode ls) = if ∀ l ∈ ls, ∀ t ∈ l.expiry, t.year ≤ 9999 then .ok ls
      else .error (.content (.badExpiry .invalidCharacter))) ∧
    ∀ l ∈ ls, ∀ t ∈ l.expiry,
      zeroTime < t.seconds ∧ t.seconds < 86400 * Date.firstDay 10000 + 86340 := by
  have hrange : ∀ l ∈ ls, ∀ t ∈ l.expiry, _ := fun l hl t ht => expiry_of_decode h hl ht
  refine ⟨?_, hrange⟩
  have hlegible : (∀ l ∈ ls, l.IsLegible) ↔ ∀ l ∈ ls, ∀ t ∈ l.expiry, t.year ≤ 9999 := by
    constructor
    · intro h l hl t ht
      exact (h l hl t ht).2
    · intro h l hl
      exact isLegible_of_zeroTime_lt fun t ht => ⟨(hrange l hl t ht).1, h l hl t ht⟩
  have hrecorded : ls.map Lease.recorded = ls :=
    (map_recorded_eq_self_iff ls).mpr fun l hl t ht => (hrange l hl t ht).1
  rw [decode_encode_eq, readBack, hrecorded]
  exact if_congr hlegible rfl rfl

/-- The last hour of the year 9999 by a clock that is an hour behind UTC. -/
def farFile : List UInt8 :=
  ("[[1,\"10.0.0.1\",\"02:00:00:00:00:01\",\"\",\"\",\"9999-12-31T23:59:59-01:00\"]]").toList.map
    Json.byte

def farLeases : LeaseSet :=
  [⟨1, .ofOctets 10 0 0 1, ⟨⟨0x02, 0x00, 0x00⟩, ⟨0x00, 0x00, 0x01⟩⟩, "", "",
    some (.ofSeconds 253402304399)⟩]

theorem decode_rewritten_far : decode farFile = .ok farLeases ∧
    decode (encode farLeases) = .error (.content (.badExpiry .invalidCharacter)) := by
  have h : decode farFile = .ok farLeases := toOption_eq_some_iff.mp (by decide +kernel)
  refine ⟨h, (decode_rewritten h).1.trans (if_neg ?_)⟩
  decide

end LeaseKeeper.LeaseFile
