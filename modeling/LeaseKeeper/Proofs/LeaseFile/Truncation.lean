/-
A lease file that has been cut off is refused.

* `fieldsWithin_extend`, `record?_extend`, `recordsWithin_extend` — a record that is read to its
  closing bracket is the same record when the text goes on, and so are all the records of a file;
* `decode_append` — so a file with something after it is the same file if that is white space, and
  is refused at what comes after it otherwise;
* `decode_truncated` — no part of what is written of a set is read as a file, but the whole and the
  whole without its line break.

Design notes: a file that was cut off and could be read would be a file with something after it,
and what is missing has the closing bracket in it.  So nothing has to be said about where it was
cut, and about what stands there.
-/
import LeaseKeeper.Proofs.Json.Streaming
import LeaseKeeper.Proofs.LeaseFile.RoundTrip
import LeaseKeeper.Proofs.LeaseFile.Steps
import LeaseKeeper.Proofs.Store.Restart

namespace LeaseKeeper.LeaseFile

open Json (byte skipSpace Blank)

variable {d e : Draft} {f : Field} {l : Lease} {s rest : List UInt8}

/-! ### Values -/

theorem text?_eq_ok_iff {wanted : Wanted} {text : String} : text? wanted s = .ok (text, rest) ↔
    ∃ t, skipSpace s = byte '"' :: t ∧ Json.string t = .ok (text, rest) := by
  rw [text?]
  cases skipSpace s with
  | nil => simp
  | cons b t =>
    dsimp only
    split
    · next hb => simp [hb, ofText_eq_ok_iff]
    · next hb => simp [hb]

theorem text?_extend {wanted : Wanted} {text : String} (h : text? wanted s = .ok (text, rest))
    (more : List UInt8) : text? wanted (s ++ more) = .ok (text, rest ++ more) := by
  obtain ⟨t, hs, ht⟩ := text?_eq_ok_iff.mp h
  exact text?_eq_ok_iff.mpr ⟨_, Json.skipSpace_extend hs more, Json.string_extend ht more⟩

theorem integer_extend {x : Int64} (h : integer s = .ok (x, rest)) (hrest : rest ≠ [])
    (more : List UInt8) : integer (s ++ more) = .ok (x, rest ++ more) := by
  unfold integer at h ⊢
  split at h
  · cases h
  · next b t hs =>
    rw [Json.skipSpace_extend hs]
    dsimp only
    split at h
    · next hb =>
      rw [if_pos hb]
      simp only [bind_eq_ok, Prod.exists, ofText_eq_ok_iff] at h ⊢
      obtain ⟨n, _, hn, x, hx, h⟩ := h
      cases h
      exact ⟨n, _, Json.number_extend hn hrest more, x, hx, rfl⟩
    · next hb =>
      rw [if_neg hb]
      split at h
      · next hdigit =>
        rw [if_pos hdigit, ← List.cons_append]
        simp only [bind_eq_ok, Prod.exists, ofText_eq_ok_iff] at h ⊢
        obtain ⟨n, _, hn, x, hx, h⟩ := h
        cases h
        exact ⟨n, _, Json.number_extend hn hrest more, x, hx, rfl⟩
      · cases h

theorem meant_extend {α : Type} {wanted : Wanted} {meaning : String → Except Misfit α} {x : α}
    (h : meant wanted meaning s = .ok (x, rest)) (more : List UInt8) :
    meant wanted meaning (s ++ more) = .ok (x, rest ++ more) := by
  rw [meant_eq_ok_iff] at h ⊢
  obtain ⟨text, htext, hx⟩ := h
  exact ⟨text, text?_extend htext more, hx⟩

/-- Only a number needs something after it. -/
theorem read_extend {x : f.Value} (h : f.read s = .ok (x, rest)) (hrest : rest ≠ [])
    (more : List UInt8) : f.read (s ++ more) = .ok (x, rest ++ more) := by
  cases f with
  | num => exact integer_extend h hrest more
  | addr => exact meant_extend h more
  | hardwareAddr => exact meant_extend h more
  | hostname => exact text?_extend h more
  | hostnameOverride => exact text?_extend h more
  | expiry => exact meant_extend h more

/-! ### Records -/

/-- After a value of an object comes a bracket at least, so a number there has ended. -/
theorem fieldsWithin_ne_nil {fuel : Nat} {isFirst : Bool}
    (h : fieldsWithin fuel d isFirst s = .ok (e, rest)) : s ≠ [] := by
  rintro rfl
  cases fuel with
  | zero => cases h
  | succ fuel => cases h

theorem fieldsWithin_extend {fuel fuel' : Nat} {isFirst : Bool}
    (h : fieldsWithin fuel d isFirst s = .ok (e, rest)) (hle : fuel ≤ fuel') (more : List UInt8) :
    fieldsWithin fuel' d isFirst (s ++ more) = .ok (e, rest ++ more) := by
  induction fuel generalizing fuel' d isFirst s with
  | zero => cases h
  | succ fuel ih =>
    obtain ⟨fuel', rfl⟩ : ∃ k, fuel' = k + 1 := ⟨fuel' - 1, by omega⟩
    have hle := Nat.le_of_succ_le_succ hle
    rw [fieldsWithin_succ_eq_ok_iff] at h ⊢
    rcases h with ⟨hkey, rfl⟩ | ⟨key, t, u, v, hkey, hu, hfield⟩
    · exact .inl ⟨Json.nextKey_extend hkey more, rfl⟩
    · refine .inr ⟨key, _, _, v ++ more, Json.nextKey_extend hkey more,
        Json.colon_extend hu more, ?_⟩
      rcases hfield with ⟨hf, hv, hrest⟩ | ⟨f, x, hf, hhas, hx, hrest⟩
      · exact .inl ⟨hf, Json.skipValue_extend hv (fieldsWithin_ne_nil hrest) more, ih hrest hle⟩
      · exact .inr ⟨f, x, hf, hhas, read_extend hx (fieldsWithin_ne_nil hrest) more, ih hrest hle⟩

/-- Once the values have been read, the end of the list is to come. -/
theorem elements_ne_nil {count : Nat} {fs : List Field}
    (h : elements d count fs s = .ok (e, rest)) (hrest : rest ≠ []) : s ≠ [] := by
  rintro rfl
  cases fs with
  | nil =>
    cases h
    exact hrest rfl
  | cons f fs => cases h

theorem elements_extend {count : Nat} {fs : List Field}
    (h : elements d count fs s = .ok (e, rest)) (hrest : rest ≠ []) (more : List UInt8) :
    elements d count fs (s ++ more) = .ok (e, rest ++ more) := by
  induction fs generalizing d count s with
  | nil =>
    cases h
    rfl
  | cons f fs ih =>
    rw [elements_cons_eq_ok_iff] at h ⊢
    rcases h with ⟨hnext, hrequired, rfl, rfl⟩ | ⟨t, x, u, hnext, hx, helements⟩
    · exact .inl ⟨Json.nextElement_extend hnext more, hrequired, rfl, rfl⟩
    · have hu := elements_ne_nil helements hrest
      exact .inr ⟨_, x, _, Json.nextElement_extend hnext more, read_extend hx hu more,
        ih helements⟩

theorem record?_extend (h : record? s = .ok (l, rest)) (more : List UInt8) :
    record? (s ++ more) = .ok (l, rest ++ more) := by
  rw [record?_eq_ok_iff] at h ⊢
  rcases h with ⟨t, d, hs, hd, hl⟩ | ⟨t, d, u, hs, hd, hl, hu⟩
  · refine .inl ⟨_, d, Json.skipSpace_extend hs more, fieldsWithin_extend hd ?_ more, hl⟩
    rw [List.length_append]
    omega
  · have hne : u ≠ [] := by
      rintro rfl
      cases hu
    exact .inr ⟨_, d, _, Json.skipSpace_extend hs more, elements_extend hd hne more, hl,
      Json.endList_extend hu more⟩

/-! ### Files -/

theorem recordsWithin_extend {fuel fuel' : Nat} {isFirst : Bool} {ls : List Lease}
    (h : recordsWithin fuel isFirst s = .ok (ls, rest)) (hle : fuel ≤ fuel') (more : List UInt8) :
    recordsWithin fuel' isFirst (s ++ more) = .ok (ls, rest ++ more) := by
  induction fuel generalizing fuel' isFirst s ls with
  | zero => cases h
  | succ fuel ih =>
    obtain ⟨fuel', rfl⟩ : ∃ k, fuel' = k + 1 := ⟨fuel' - 1, by omega⟩
    have hle := Nat.le_of_succ_le_succ hle
    rw [recordsWithin_succ_eq_ok_iff] at h ⊢
    rcases h with ⟨hnext, hend, rfl⟩ | ⟨t, l, u, ls', hnext, hl, hls, rfl⟩
    · exact .inl ⟨Json.nextElement_extend hnext more, Json.endList_extend hend more, rfl⟩
    · exact .inr ⟨_, l, _, ls', Json.nextElement_extend hnext more, record?_extend hl more,
        ih hls hle, rfl⟩

/-- A file with something after it. -/
theorem decode_append {ls : LeaseSet} (h : decode s = .ok ls) (more : List UInt8) :
    decode (s ++ more) =
      if Blank more then .ok ls else .error (.text .trailingCharacters) := by
  obtain ⟨t, u, hs, hls, hu⟩ := decode_eq_ok_iff.mp h
  have hlength : t.length + 1 ≤ (t ++ more).length + 1 := by
    rw [List.length_append]
    omega
  have hblank : Blank (u ++ more) ↔ Blank more := by
    rw [Json.endDocument_eq_ok_iff] at hu
    exact List.forall_mem_append.trans (and_iff_right hu)
  rw [decode, Json.skipSpace_extend hs]
  simp only [ne_eq, not_true, if_false, recordsWithin_extend hls hlength more, Json.endDocument_eq,
    bind, Except.bind]
  by_cases hmore : Blank more
  · rw [if_pos hmore, if_pos (hblank.mpr hmore)]
    rfl
  · rw [if_neg hmore, if_neg (fun h => hmore (hblank.mp h))]
    rfl

theorem exists_encode_eq (ls : LeaseSet) : ∃ body, encode ls = body ++ [byte ']', byte '\n'] := by
  cases ls with
  | nil => exact ⟨[byte '['], by decide⟩
  | cons l ls =>
    refine ⟨byte '[' :: (Text.Utf8.encode (Json.Layout.indented.lineBreak 1) ++
      (Text.Utf8.encode ((record l).writeAt .indented 1) ++
        (recordsBytes ls ++ Text.Utf8.encode (Json.Layout.indented.lineBreak 0)))), ?_⟩
    rw [encode_cons, listBytes]
    simp only [List.cons_append, List.append_assoc]

/-- What is missing of a file that reads as one is at most its line break. -/
theorem missing_of_decode {ls : LeaseSet} {p q : List UInt8} (hpq : p ++ q = encode ls)
    {ls' : LeaseSet} (h : decode p = .ok ls') : q = [] ∨ q = [byte '\n'] := by
  have hwhole := decode_append h q
  rw [hpq, decode_encode_eq, readBack] at hwhole
  -- The whole file is not refused for its text.
  have hblank : Blank q := by
    refine Classical.byContradiction fun hnot => ?_
    rw [if_neg hnot] at hwhole
    split at hwhole <;> cases hwhole
  have hbracket : byte ']' ∉ q := fun hmem => absurd (hblank _ hmem) (by decide)
  obtain ⟨body, hbody⟩ := exists_encode_eq ls
  -- So the cut lies behind the closing bracket, or behind the line break.
  rw [hbody, List.append_eq_append_iff] at hpq
  rcases hpq with ⟨front, -, rfl⟩ | ⟨front, -, hend⟩
  · exact absurd (List.mem_append_right front List.mem_cons_self) hbracket
  · rw [List.cons_eq_append_iff] at hend
    rcases hend with ⟨-, rfl⟩ | ⟨front, -, hend⟩
    · exact absurd List.mem_cons_self hbracket
    · rw [List.cons_eq_append_iff] at hend
      rcases hend with ⟨-, rfl⟩ | ⟨front, -, hend⟩
      · exact .inr rfl
      · exact .inl (List.append_eq_nil_iff.mp hend.symm).2

/-- **A truncated lease file is never loaded as a smaller set.**  A proper prefix of what is written
of a set, which lacks more than the line break at the end, is refused for its content, and a store
that is opened on it reports this and does not come up. -/
theorem decode_truncated (ls : LeaseSet) (p : List UInt8) (hp : p <+: encode ls)
    (hproper : p ≠ encode ls) (hlineBreak : p ++ [byte '\n'] ≠ encode ls) :
    ∃ e, decode p = .error e ∧ ∀ fs path, FileSystem.read fs (.ofText path) = .ok p →
      LeaseStore.ofStorage (fileStorage path) fs = .error (.corrupt path e) := by
  obtain ⟨q, hq⟩ := hp
  cases hdecode : decode p with
  | ok ls' =>
    rcases missing_of_decode hq hdecode with rfl | rfl
    · exact absurd (List.append_nil p ▸ hq) hproper
    · exact absurd hq hlineBreak
  | error e =>
    refine ⟨e, rfl, fun fs path hread => ?_⟩
    rw [ofStorage_of_read hread, hdecode]

/-- A lease whose hostname reads like the end of a file. -/
def bracketLease : Lease :=
  ⟨1, .ofOctets 10 0 0 1, ⟨⟨0x02, 0x00, 0x00⟩, ⟨0x00, 0x00, 0x01⟩⟩, "\"\x7d]", "", none⟩

/-- The file of two such leases, cut off within the hostname of the second one. -/
def bracketFile : List UInt8 := (encode [bracketLease, bracketLease]).take 263

theorem decode_truncated_bracket : bracketFile <+: encode [bracketLease, bracketLease] ∧
    bracketFile ≠ encode [bracketLease, bracketLease] ∧
    bracketFile ++ [byte '\n'] ≠ encode [bracketLease, bracketLease] ∧
    ∃ e, decode bracketFile = .error e := by
  have hproper : bracketFile ≠ encode [bracketLease, bracketLease] := by decide +kernel
  have hlineBreak : bracketFile ++ [byte '\n'] ≠ encode [bracketLease, bracketLease] := by
    decide +kernel
  have hfront : bracketFile <+: encode [bracketLease, bracketLease] := List.take_prefix _ _
  obtain ⟨e, he, -⟩ := decode_truncated _ bracketFile hfront hproper hlineBreak
  exact ⟨hfront, hproper, hlineBreak, e, he⟩

end LeaseKeeper.LeaseFile
