/-
The normal text of a hardware address.

* `IsSixPairs` — a text has the shape of a hardware address: six pairs of hexadecimal digits;
* `normal` — a character as it stands in a normal text;
* `exists_spells` — every text of that shape is one of an address;
* `map_normal_of_spells` — the texts of an address differ only in case and in separators;
* `toText_normal` — what is written for an address that has been read, and how it reads back.
-/
import LeaseKeeper.Proofs.LeaseFile.Record

namespace LeaseKeeper.HardwareAddress

variable {s g : List Char} {a : HardwareAddress} {b : UInt8}

/-- Six pairs of hexadecimal digits, in either case, with single colons or dashes between them. -/
def IsSixPairs (s : List Char) : Prop :=
  ∃ pairs, Text.Joined isSeparator pairs s ∧ pairs.length = 6 ∧
    ∀ g ∈ pairs, g.length = 2 ∧ ∀ c ∈ g, Text.IsHexDigit c

/-- A letter as a small letter, and a dash as a colon. -/
def normal (c : Char) : Char := if c = '-' then ':' else c.toLower

/-! ### Texts of one address -/

theorem normal_of_isSeparator {c : Char} (h : isSeparator c = true) : normal c = ':' := by
  rw [isSeparator, Bool.or_eq_true, beq_iff_eq, beq_iff_eq] at h
  rcases h with rfl | rfl
  · decide
  · decide

theorem map_normal_of_spellsOctet (h : SpellsOctet g b) : g.map normal = Text.hexPair b := by
  rw [← h]
  refine List.map_congr_left fun c hc => if_neg ?_
  -- No dash belongs to an octet.
  rintro rfl
  exact absurd (isSeparator_of_spellsOctetLoosely (.inl h) '-' hc) (by decide)

theorem map_normal_of_spells (h : Spells s a) : s.map normal = a.toChars := by
  obtain ⟨groups, hjoined, hgroups⟩ := h
  have hpairs : groups.map (·.map normal) = a.octets.map Text.hexPair := by
    rw [← List.forall₂_eq_eq_eq, List.forall₂_map_left_iff, List.forall₂_map_right_iff]
    exact hgroups.imp fun g b => map_normal_of_spellsOctet
  rw [hjoined.map (fun c => normal_of_isSeparator), hpairs, toChars]

theorem exists_spells (h : IsSixPairs s) : ∃ a, Spells s a := by
  obtain ⟨pairs, hjoined, hlength, hpairs⟩ := h
  have hread : ∀ g ∈ pairs, ∃ b, SpellsOctet g b := by
    intro g hg
    obtain ⟨hsize, hdigits⟩ := hpairs g hg
    obtain ⟨high, low, rfl⟩ := List.length_eq_two.mp hsize
    obtain ⟨m, hm⟩ := Text.exists_hexDigit? (hdigits high List.mem_cons_self)
    obtain ⟨n, hn⟩ :=
      Text.exists_hexDigit? (hdigits low (List.mem_cons_of_mem _ List.mem_cons_self))
    exact ⟨_, spellsOctet_ofNat hm hn⟩
  obtain ⟨bs, hbs⟩ := Text.exists_forall₂ hread
  match bs, hbs.length_eq.symm.trans hlength, hbs with
  | [b₀, b₁, b₂, b₃, b₄, b₅], _, hbs => exact ⟨⟨⟨b₀, b₁, b₂⟩, ⟨b₃, b₄, b₅⟩⟩, pairs, hjoined, hbs⟩

/-! ### Written and read back -/

theorem parse_of_spells {t : String} (h : Spells t.toList a) : parse t = .ok a :=
  parse_eq_ok_iff.mpr (ofText?_eq_some_iff.mpr (spells_iff.mp h).1)

theorem toText_injective : Function.Injective toText := by
  intro a b h
  have hsame := parse_toText a
  rw [h, parse_toText] at hsame
  exact (Except.ok.inj hsame).symm

/-- An address reads back from the field of a lease record in which its text stands. -/
theorem readField_toText (a : HardwareAddress) (layout : Json.Layout) (d : LeaseFile.Draft)
    (rest : List UInt8) :
    d.readField .hardwareAddr
        (Text.Utf8.encode ((Json.Value.string a.toText).write layout) ++ rest) =
      .ok ({ d with hardwareAddr := some a }, rest) := by
  have htext := LeaseFile.text?_blank_quotedString .text Json.blank_nil a.toText rest
  rw [List.nil_append] at htext
  rw [Json.Value.write, Json.Value.writeAt, LeaseFile.Draft.readField, htext]
  simp only [bind, Except.bind, LeaseFile.hardwareAddressOfText_toText, LeaseFile.ofContent, pure,
    Except.pure]

/-- **The normal text of a hardware address.**  A text of six pairs of hexadecimal digits is read as
an address, for which the same text is written with small letters and colons.  Every address reads
back from what is written for it, alone and as a value in a lease file, so no two addresses have the
same text. -/
theorem toText_normal :
    (∀ s : String, IsSixPairs s.toList →
      ∃ a, parse s = .ok a ∧ a.toText = String.ofList (s.toList.map normal)) ∧
    (∀ a, parse a.toText = .ok a) ∧ Function.Injective toText ∧
    ∀ (a : HardwareAddress) (layout : Json.Layout) (d : LeaseFile.Draft) (rest : List UInt8),
      d.readField .hardwareAddr
          (Text.Utf8.encode ((Json.Value.string a.toText).write layout) ++ rest) =
        .ok ({ d with hardwareAddr := some a }, rest) := by
  refine ⟨fun s hs => ?_, parse_toText, toText_injective, readField_toText⟩
  obtain ⟨a, ha⟩ := exists_spells hs
  refine ⟨a, parse_of_spells ha, ?_⟩
  rw [map_normal_of_spells ha, toText]

/-- A text with digits in both cases and both separators. -/
theorem toText_normal_mixed : IsSixPairs "0A-b1:2C-3d:4E-5f".toList ∧
    ∃ a, parse "0A-b1:2C-3d:4E-5f" = .ok a ∧ a.toText = "0a:b1:2c:3d:4e:5f" := by
  have hpairs : IsSixPairs "0A-b1:2C-3d:4E-5f".toList :=
    ⟨[['0', 'A'], ['b', '1'], ['2', 'C'], ['3', 'd'], ['4', 'E'], ['5', 'f']],
      .more _ rfl (.more _ rfl (.more _ rfl (.more _ rfl (.more _ rfl (.last _))))), rfl,
      by simp [Text.IsHexDigit]⟩
  obtain ⟨a, hread, htext⟩ := toText_normal.1 _ hpairs
  refine ⟨hpairs, a, hread, htext.trans ?_⟩
  decide

end LeaseKeeper.HardwareAddress
