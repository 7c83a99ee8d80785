/-
Lease files read back.

* `decode_encode` — which sets come back from the file that is written for them, and what comes
  back of the others;
* `recordsWithin_recordsBytes` — the records of a file are read one after another.
-/
import LeaseKeeper.Proofs.LeaseFile.Record

namespace LeaseKeeper.LeaseFile

open Json (byte Layout)

/-! ### Files -/

/-- The leases of a file that was written for `s`, unless one of them is illegible. -/
def readBack (s : LeaseSet) : Except Error LeaseSet :=
  if ∀ l ∈ s, l.IsLegible then .ok (s.map Lease.recorded) else .error (.content illegible)

/-- The records after the first one as bytes. -/
def recordsBytes (s : LeaseSet) : List UInt8 :=
  Text.Utf8.encode (Json.Value.writeElements .indented 1 (s.map record))

theorem recordsBytes_cons (l : Lease) (s : LeaseSet) :
    recordsBytes (l :: s) =
      byte ',' :: (Text.Utf8.encode (Layout.indented.lineBreak 1) ++
        (Text.Utf8.encode ((record l).writeAt .indented 1) ++ recordsBytes s)) := by
  simp only [recordsBytes, List.map_cons, Json.Value.writeElements]
  rw [Json.encode_cons_ascii (by decide)]
  simp only [Text.Utf8.encode_append, List.append_assoc]

theorem length_le_recordsBytes (s : LeaseSet) : s.length ≤ (recordsBytes s).length := by
  induction s with
  | nil => exact Nat.zero_le _
  | cons l s ih =>
    rw [recordsBytes_cons]
    simp only [List.length_cons, List.length_append]
    omega

theorem readBack_cons (l : Lease) (s : LeaseSet) :
    readBack (l :: s) = if l.IsLegible then (readBack s).map (l.recorded :: ·)
      else .error (.content illegible) := by
  simp only [readBack, List.forall_mem_cons]
  by_cases hl : l.IsLegible
  · by_cases hs : ∀ l ∈ s, l.IsLegible
    · rw [if_pos ⟨hl, hs⟩, if_pos hl, if_pos hs]
      rfl
    · rw [if_neg (fun h => hs h.2), if_pos hl, if_neg hs]
      rfl
  · rw [if_neg (fun h => hl h.1), if_neg hl]

theorem recordsWithin_record {isFirst : Bool} {l : Lease} {s after : List UInt8}
    (hnext : Json.nextElement isFirst s =
      .ok (some (Text.Utf8.encode ((record l).writeAt .indented 1) ++ after))) (fuel : Nat) :
    recordsWithin (fuel + 1) isFirst s =
      if l.IsLegible then
        (recordsWithin fuel false after).map fun (ls, rest) => (l.recorded :: ls, rest)
      else .error (.content illegible) := by
  rw [recordsWithin, hnext]
  simp only [ofText, bind, Except.bind, record?_encode_record]
  by_cases hl : l.IsLegible
  · simp only [if_pos hl]
    cases recordsWithin fuel false after <;> rfl
  · simp only [if_neg hl]

theorem recordsWithin_recordsBytes (ls : LeaseSet) (s : List UInt8) (fuel : Nat) :
    recordsWithin (fuel + 1 + ls.length) false
      (recordsBytes ls ++ (Text.Utf8.encode (Layout.indented.lineBreak 0) ++ byte ']' :: s)) =
        (readBack ls).map fun ls => (ls, s) := by
  induction ls with
  | nil =>
    have hend := Json.nextElement_end (Json.blank_lineBreak .indented 0) false s
    show recordsWithin (fuel + 1) false
      (Text.Utf8.encode (Layout.indented.lineBreak 0) ++ byte ']' :: s) = _
    rw [recordsWithin, hend]
    simp only [ofText, bind, Except.bind, Json.endList_blank (Json.blank_lineBreak .indented 0),
      pure, Except.pure]
    rfl
  | cons l ls ih =>
    rw [recordsBytes_cons, List.length_cons, ← Nat.add_assoc]
    simp only [List.cons_append, List.append_assoc]
    rw [encode_record, List.cons_append]
    -- If this record is illegible, it does not matter what comes after it.
    rw [recordsWithin_record (l := l) (by
      rw [encode_record]
      exact Json.nextElement_next Json.blank_nil (Json.blank_lineBreak .indented 1) (by decide)
        (by decide) _), ih, readBack_cons]
    by_cases hl : l.IsLegible
    · rw [if_pos hl, if_pos hl]
      cases readBack ls <;> rfl
    · rw [if_neg hl, if_neg hl]
      rfl

/-- What is written of a file after its opening bracket. -/
def listBytes (l : Lease) (ls : LeaseSet) : List UInt8 :=
  Text.Utf8.encode (Layout.indented.lineBreak 1) ++
    (Text.Utf8.encode ((record l).writeAt .indented 1) ++
      (recordsBytes ls ++ (Text.Utf8.encode (Layout.indented.lineBreak 0) ++
        [byte ']', byte '\n'])))

theorem encode_cons (l : Lease) (ls : LeaseSet) :
    encode (l :: ls) = byte '[' :: listBytes l ls := by
  rw [encode, text, document, Json.Value.writeFile, Json.Value.write, List.map_cons,
    Json.Value.writeAt, List.cons_append, Json.encode_cons_ascii (by decide)]
  simp only [Text.Utf8.encode_append, List.append_assoc, recordsBytes, listBytes]
  rfl

theorem length_lt_listBytes (l : Lease) (ls : LeaseSet) : ls.length < (listBytes l ls).length := by
  have h := length_le_recordsBytes ls
  simp only [listBytes, List.length_append, List.length_cons]
  omega

theorem nextElement_listBytes (l : Lease) (ls : LeaseSet) :
    Json.nextElement true (listBytes l ls) =
      .ok (some (Text.Utf8.encode ((record l).writeAt .indented 1) ++
        (recordsBytes ls ++ (Text.Utf8.encode (Layout.indented.lineBreak 0) ++
          [byte ']', byte '\n'])))) := by
  rw [listBytes, encode_record]
  exact Json.nextElement_first (Json.blank_lineBreak .indented 1) (by decide) (by decide) _

theorem decode_encode_eq (s : LeaseSet) : decode (encode s) = readBack s := by
  cases s with
  | nil => rfl
  | cons l ls =>
    -- The fuel is the number of bytes, of which every record has at least one.
    obtain ⟨fuel, hfuel⟩ := Nat.exists_eq_add_of_lt (length_lt_listBytes l ls)
    have hfuel' : (listBytes l ls).length + 1 = fuel + 1 + ls.length + 1 := by omega
    have hrest := recordsWithin_recordsBytes ls [byte '\n'] fuel
    rw [encode_cons, decode, Json.skipSpace_cons (by decide)]
    simp only [ne_eq, not_true, if_false, bind, Except.bind]
    rw [hfuel', recordsWithin_record (nextElement_listBytes l ls), hrest, readBack_cons]
    by_cases hl : l.IsLegible
    · rw [if_pos hl, if_pos hl]
      cases readBack ls <;> rfl
    · rw [if_neg hl, if_neg hl]

/-! ### Exactness -/

theorem recorded_eq_self_iff (l : Lease) :
    l.recorded = l ↔ ∀ t ∈ l.expiry, zeroTime < t.seconds := by
  obtain ⟨ordinal, address, hardwareAddress, hostname, hostnameOverride, expiry⟩ := l
  simp only [Lease.recorded, Lease.mk.injEq, true_and]
  cases expiry with
  | none => simp
  | some t =>
    by_cases h : zeroTime < t.seconds
    · simp [Option.filter, h]
    · simp [Option.filter, h]

theorem map_recorded_eq_self_iff (s : LeaseSet) :
    s.map Lease.recorded = s ↔ ∀ l ∈ s, ∀ t ∈ l.expiry, zeroTime < t.seconds := by
  induction s with
  | nil => simp
  | cons l s ih =>
    rw [List.map_cons, List.cons.injEq, recorded_eq_self_iff, ih, List.forall_mem_cons]

/-- After the zero time there are only years from 1 on. -/
theorem isLegible_of_zeroTime_lt {l : Lease}
    (h : ∀ t ∈ l.expiry, zeroTime < t.seconds ∧ t.year ≤ 9999) : l.IsLegible := by
  intro t ht
  obtain ⟨hzero, hyear⟩ := h t ht
  -- The zero time is the beginning of the year 1, so an instant after it is not in a year below 0.
  have hfirst : Date.firstDay 0 = -719528 := by decide
  have hlt := t.year_lt_iff 0
  rw [hfirst] at hlt
  rw [zeroTime] at hzero
  exact ⟨by omega, hyear⟩

theorem decode_encode_eq_self_iff (s : LeaseSet) : decode (encode s) = .ok s ↔
    ∀ l ∈ s, ∀ t ∈ l.expiry, zeroTime < t.seconds ∧ t.year ≤ 9999 := by
  rw [decode_encode_eq, readBack]
  constructor
  · intro h l hl t ht
    split at h
    · next hlegible =>
      rw [Except.ok.injEq, map_recorded_eq_self_iff] at h
      exact ⟨h l hl t ht, (hlegible l hl t ht).2⟩
    · cases h
  · intro h
    have hlegible : ∀ l ∈ s, l.IsLegible := fun l hl => isLegible_of_zeroTime_lt (h l hl)
    rw [if_pos hlegible, Except.ok.injEq, map_recorded_eq_self_iff]
    exact fun l hl t ht => (h l hl t ht).1

/-- **A lease file holds exactly what was written**, lease for lease and in the same order, except
that an expiry up to the zero time comes back as none.  A set with an expiry whose year in UTC
lies outside 0 to 9999 is written as a file that is refused.  So a set comes back unchanged if and
only if every expiry comes after the zero time and before the year 10000. -/
theorem decode_encode (s : LeaseSet) :
    decode (encode s) =
        (if ∀ l ∈ s, l.IsLegible then .ok (s.map Lease.recorded)
          else .error (.content (.badExpiry .invalidCharacter))) ∧
      (decode (encode s) = .ok s ↔
        ∀ l ∈ s, ∀ t ∈ l.expiry, zeroTime < t.seconds ∧ t.year ≤ 9999) :=
  ⟨decode_encode_eq s, decode_encode_eq_self_iff s⟩

end LeaseKeeper.LeaseFile
