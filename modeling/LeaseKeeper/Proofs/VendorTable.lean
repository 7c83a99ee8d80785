/-
What a vendor table knows, line by line.

* `vendorOf?_foldl_assign` — of several assignments the first counts;
* `VendorTable.assignments`, `vendorOf?_ofBytes` — a table knows what its lines assign, each line by
  its own bytes;
* `assignments_append`, `assignments_concat` — lines that are added, and the carriage return at the
  end of a line;
* `size_eq_ncard` — no triple of octets is counted twice;
* `ofBytes_composes` — all of this in terms of what is found for an address.
-/
import LeaseKeeper.Proofs.FileSystem.Approach
import LeaseKeeper.Proofs.Text.Lines
import LeaseKeeper.VendorTable
import Mathlib.Data.Set.Card

namespace LeaseKeeper

theorem OctetTriple.octets_injective : Function.Injective OctetTriple.octets := by
  rintro ⟨a, b, c⟩ ⟨d, e, f⟩ h
  cases h
  rfl

namespace VendorTable

open Text.Utf8 (decodeLossy)

variable {t : VendorTable} {entry : OctetTriple × String} {k : OctetTriple} {a b : List UInt8}

/-! ### The first assignment counts -/

theorem vendorOf?_append (es fs : List (OctetTriple × String)) (k : OctetTriple) :
    vendorOf? ⟨es ++ fs⟩ k = (vendorOf? ⟨es⟩ k).or (vendorOf? ⟨fs⟩ k) := by
  rw [vendorOf?, List.find?_append, Option.map_or]
  rfl

theorem vendorOf?_assign (t : VendorTable) (entry : OctetTriple × String) (k : OctetTriple) :
    (t.assign entry).vendorOf? k = (t.vendorOf? k).or (vendorOf? ⟨[entry]⟩ k) := by
  rw [assign]
  split
  · next hknown =>
    by_cases hk : entry.1 = k
    · rw [hk] at hknown
      exact (Option.or_of_isSome hknown).symm
    · have hnone : vendorOf? ⟨[entry]⟩ k = none := by simp [vendorOf?, hk]
      rw [hnone, Option.or_none]
  · exact vendorOf?_append t.entries [entry] k

theorem vendorOf?_foldl_assign (es : List (OctetTriple × String)) (t : VendorTable)
    (k : OctetTriple) :
    (es.foldl assign t).vendorOf? k = (t.vendorOf? k).or (vendorOf? ⟨es⟩ k) := by
  induction es generalizing t with
  | nil => exact (Option.or_none).symm
  | cons entry es ih =>
    rw [List.foldl_cons, ih, vendorOf?_assign, Option.or_assoc, ← vendorOf?_append]
    rfl

/-! ### Lines -/

/-- The assignments that the lines of a file make, in their order. -/
def assignments (bytes : List UInt8) : List (OctetTriple × String) :=
  (Text.fields (· == 0x0A) bytes).filterMap fun line => assignment? (decodeLossy line)

theorem ofBytes_eq (bytes : List UInt8) :
    ofBytes bytes = (assignments bytes).foldl assign empty := by
  rw [ofBytes, ofText, Text.Utf8.fields_decodeLossy, List.filterMap_map]
  rfl

theorem vendorOf?_ofBytes (bytes : List UInt8) (k : OctetTriple) :
    (ofBytes bytes).vendorOf? k = vendorOf? ⟨assignments bytes⟩ k := by
  rw [ofBytes_eq, vendorOf?_foldl_assign]
  rfl

theorem assignments_append (a b : List UInt8) :
    assignments (a ++ 0x0A :: b) = assignments a ++ assignments b := by
  rw [assignments, Text.fields_append_cons rfl, List.filterMap_append]
  rfl

/-- A carriage return at the end of a line is a blank after the vendor. -/
theorem assignment?_concat (line : List Char) :
    assignment? (line ++ ['\r']) = assignment? line := by
  have hmarker : atMarker? (line ++ ['\r']) =
      (atMarker? line).map fun parts => (parts.1, parts.2 ++ ['\r']) := by
    rw [atMarker?, Text.cut?_concat (by decide) (by decide),
      Text.cut?_concat (by decide) (by decide), ← Option.map_or]
    rfl
  rw [assignment?, hmarker, assignment?]
  cases atMarker? line with
  | none => rfl
  | some parts =>
    simp only [Option.map_some, Option.bind_eq_bind, Option.bind_some,
      Text.trim_concat (c := '\r') (by decide)]

theorem assignments_of_notMem (h : 0x0A ∉ a) :
    assignments a = (assignment? (decodeLossy a)).toList := by
  rw [assignments, Text.fields_of_notMem h, List.filterMap_cons, List.filterMap_nil]
  cases assignment? (decodeLossy a) <;> rfl

theorem assignments_concat (bytes : List UInt8) :
    assignments (bytes ++ [0x0D]) = assignments bytes := by
  refine Text.separated_induction 0x0A (fun line h => ?_) (fun s t _ ht => ?_) bytes
  · have hreturn : (0x0A : UInt8) ∉ line ++ [0x0D] := by simp [h]
    have hline : decodeLossy (line ++ [0x0D]) = decodeLossy line ++ ['\r'] := by
      rw [Text.Utf8.decodeLossy_append (by decide), Text.Utf8.decodeLossy]
      rfl
    rw [assignments_of_notMem hreturn, assignments_of_notMem h, hline, assignment?_concat]
  · rw [List.append_assoc, List.cons_append, assignments_append, assignments_append, ht]

theorem find?_ofBytes_append (a b : List UInt8) (h : HardwareAddress) :
    (ofBytes (a ++ 0x0A :: b)).find? h = ((ofBytes a).find? h).or ((ofBytes b).find? h) := by
  simp only [find?, vendorOf?_ofBytes, assignments_append, vendorOf?_append]

theorem find?_ofBytes_lines (bytes : List UInt8) (h : HardwareAddress) :
    (ofBytes bytes).find? h =
      (Text.fields (· == 0x0A) bytes).findSome? fun line => (ofBytes line).find? h := by
  refine Text.separated_induction 0x0A (fun line hline => ?_) (fun s t hs ht => ?_) bytes
  · rw [Text.fields_of_notMem hline, List.findSome?_singleton]
  · rw [find?_ofBytes_append, Text.fields_append_cons rfl, List.findSome?_append, hs, ht]

/-! ### Counting -/

/-- The triples that a table assigns. -/
def triples (t : VendorTable) : List OctetTriple := t.entries.map (·.1)

theorem mem_triples_iff : k ∈ t.triples ↔ t.vendorOf? k ≠ none := by
  rw [vendorOf?, Option.ne_none_iff_isSome, Option.isSome_map, List.find?_isSome]
  simp [triples]

theorem nodup_triples_assign (h : t.triples.Nodup) : (t.assign entry).triples.Nodup := by
  rw [assign]
  split
  · exact h
  · next hnew =>
    rw [triples, List.map_append, List.map_singleton, ← List.concat_eq_append]
    refine h.concat fun hmem => hnew ?_
    exact Option.isSome_iff_ne_none.mpr (mem_triples_iff.mp hmem)

theorem nodup_triples_foldl (es : List (OctetTriple × String)) (h : t.triples.Nodup) :
    (es.foldl assign t).triples.Nodup := by
  induction es generalizing t with
  | nil => exact h
  | cons entry es ih => exact ih (nodup_triples_assign h)

theorem size_eq_ncard (bytes : List UInt8) :
    (ofBytes bytes).size = {k | (ofBytes bytes).vendorOf? k ≠ none}.ncard := by
  have hnodup : (ofBytes bytes).triples.Nodup := by
    rw [ofBytes_eq]
    exact nodup_triples_foldl _ List.nodup_nil
  have hset : {k | (ofBytes bytes).vendorOf? k ≠ none} =
      ((ofBytes bytes).triples.toFinset : Set OctetTriple) := by
    ext k
    rw [List.coe_toFinset]
    exact mem_triples_iff.symm
  rw [hset, Set.ncard_coe_finset, List.toFinset_card_of_nodup hnodup, triples, List.length_map]
  rfl

/-! ### Addresses -/

theorem take_octets (h : HardwareAddress) : h.octets.take 3 = h.vendor.octets := rfl

/-- The first three octets of the addresses whose vendor a table knows. -/
def prefixes (t : VendorTable) : Set (List UInt8) :=
  {octets | ∃ h : HardwareAddress, h.octets.take 3 = octets ∧ t.find? h ≠ none}

theorem prefixes_eq_image (t : VendorTable) :
    t.prefixes = OctetTriple.octets '' {k | t.vendorOf? k ≠ none} := by
  ext octets
  constructor
  · rintro ⟨h, rfl, hfind⟩
    exact ⟨h.vendor, hfind, rfl⟩
  · rintro ⟨k, hk, rfl⟩
    exact ⟨⟨k, k⟩, rfl, hk⟩

/-- What the table of a file finds is what its lines assign, the first of them first, however
damaged the others are; it finds the vendor by the first three octets of an address, and counts
these. -/
theorem ofBytes_composes (a b : List UInt8) :
    (∀ h, (ofBytes (a ++ 0x0A :: b)).find? h = ((ofBytes a).find? h).or ((ofBytes b).find? h)) ∧
    (∀ h v, (ofBytes a).find? h = some v → (ofBytes (a ++ 0x0A :: b)).find? h = some v) ∧
    (∀ h, (ofBytes a).find? h =
      (Text.fields (· == 0x0A) a).findSome? fun line => (ofBytes line).find? h) ∧
    (∀ h, (ofBytes (a ++ 0x0D :: 0x0A :: b)).find? h = (ofBytes (a ++ 0x0A :: b)).find? h) ∧
    (∀ h h', h.octets.take 3 = h'.octets.take 3 → (ofBytes a).find? h = (ofBytes a).find? h') ∧
    (ofBytes a).size = (ofBytes a).prefixes.ncard ∧
    ∀ fs path, fs.read (Path.ofText path) = .ok a →
      load fs path = .ok (ofBytes a) ∧ loadElseEmpty fs path = ofBytes a := by
  refine ⟨find?_ofBytes_append a b, fun h v hv => ?_, find?_ofBytes_lines a, fun h => ?_,
    fun h h' heq => ?_, ?_, fun fs path hread => ?_⟩
  · rw [find?_ofBytes_append, hv]
    rfl
  · have hcarriage := find?_ofBytes_append (a ++ [0x0D]) b h
    rw [List.append_assoc, List.singleton_append] at hcarriage
    rw [hcarriage, find?_ofBytes_append]
    simp only [find?, vendorOf?_ofBytes, assignments_concat]
  · rw [take_octets, take_octets] at heq
    rw [find?, find?, OctetTriple.octets_injective heq]
  · rw [size_eq_ncard, prefixes_eq_image,
      Set.ncard_image_of_injective _ OctetTriple.octets_injective]
  · have hload : load fs path = .ok (ofBytes a) := by rw [load, hread]
    exact ⟨hload, by rw [loadElseEmpty, hload]⟩

/-- A file that breaks off within a character. -/
def brokenOff : List UInt8 := Text.Utf8.encode "00-1A-2B (hex) A".toList ++ [0xE2]

/-- The next line assigns the same octets, and the file still assigns them. -/
theorem ofBytes_composes_brokenOff :
    let line : List UInt8 := Text.Utf8.encode "001A2B (base 16) B".toList
    let fs : FileSystem := (FileSystem.empty []).put ["t"] (.file brokenOff FileSystem.fileMode)
    let h : HardwareAddress := ⟨⟨0x00, 0x1A, 0x2B⟩, ⟨1, 2, 3⟩⟩
    let h' : HardwareAddress := ⟨⟨0x00, 0x1A, 0x2B⟩, ⟨4, 5, 6⟩⟩
    (ofBytes brokenOff).find? h = some "A\uFFFD" ∧ (ofBytes line).find? h = some "B" ∧
    (ofBytes (brokenOff ++ 0x0A :: line)).find? h = some "A\uFFFD" ∧
    (ofBytes brokenOff).find? h' = some "A\uFFFD" ∧
    (ofBytes brokenOff).prefixes.ncard = 1 ∧
    fs.read (Path.ofText "/t") = .ok brokenOff ∧ load fs "/t" = .ok (ofBytes brokenOff) := by
  intro line fs h h'
  have hfound : (ofBytes brokenOff).find? h = some "A\uFFFD" := by decide +kernel
  have hline : (ofBytes line).find? h = some "B" := by decide +kernel
  have hsize : (ofBytes brokenOff).size = 1 := by decide +kernel
  have hway : fs.Approach (.ofText "/t") [] "t" [] :=
    ⟨rfl, by decide, by decide, ⟨_, .stop⟩, ⟨_, rfl⟩⟩
  have hread : fs.read (Path.ofText "/t") = .ok brokenOff := hway.read_file (by decide) rfl
  obtain ⟨-, hkept, -, -, hoctets, hcount, hload⟩ := ofBytes_composes brokenOff line
  exact ⟨hfound, hline, hkept h _ hfound, (hoctets h' h rfl).trans hfound, hcount.symm.trans hsize,
    hread, (hload fs "/t" hread).1⟩

end VendorTable

end LeaseKeeper
