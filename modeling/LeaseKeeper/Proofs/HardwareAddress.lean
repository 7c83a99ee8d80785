/-
The texts of hardware addresses.

`Spells` says which texts an address has: two digits for each octet, in either case, with single
colons or dashes between the octets.

* `octet?_eq_some_iff` — what is read as an octet: two digits, or a plus sign and one digit;
* `ofText?_eq_some_iff` — what is read as an address: its texts, and those with such octets;
* `spells_toChars`, `parse_toText` — an address reads back from its text;
* `parse_spells` — a text that is read is one of the address unless it has a plus sign.
-/
import LeaseKeeper.HardwareAddress
import LeaseKeeper.Proofs.Text.Fields
import LeaseKeeper.Proofs.Text.Hexadecimal

namespace LeaseKeeper.HardwareAddress

variable {s : List Char} {c : Char} {b : UInt8} {a : HardwareAddress}

/-! ### Octets -/

/-- Two hexadecimal digits, each in either case, spell an octet. -/
def SpellsOctet (s : List Char) (b : UInt8) : Prop := s.map Char.toLower = Text.hexPair b

/-- A plus sign can stand in the place of a zero as the first digit. -/
def SpellsOctetLoosely (s : List Char) (b : UInt8) : Prop :=
  SpellsOctet s b ∨ ∃ low, s = ['+', low] ∧ SpellsOctet ['0', low] b

/-- The digits of an octet are those of its two halves. -/
theorem spellsOctet_iff : SpellsOctet s b ↔ ∃ high low, s = [high, low] ∧
    Text.hexDigit? high = some (b.toNat / 16) ∧ Text.hexDigit? low = some (b.toNat % 16) := by
  have hb := b.toNat_lt
  have hhigh : b.toNat / 16 < 16 := by omega
  have hlow : b.toNat % 16 < 16 := by omega
  simp only [Text.hexDigit?_eq_some_iff, hhigh, hlow, true_and]
  rw [SpellsOctet, Text.hexPair]
  constructor
  · intro h
    obtain ⟨high, t, rfl, h1, ht⟩ := List.map_eq_cons_iff.mp h
    obtain ⟨low, u, rfl, h2, hu⟩ := List.map_eq_cons_iff.mp ht
    rw [List.map_eq_nil_iff.mp hu]
    exact ⟨high, low, rfl, h1, h2⟩
  · rintro ⟨high, low, rfl, h1, h2⟩
    rw [List.map_cons, List.map_cons, List.map_nil, h1, h2]

/-- The digits of an octet are read as their number. -/
theorem spellsOctet_ofNat {high low : Char} {h l : Nat} (hh : Text.hexDigit? high = some h)
    (hl : Text.hexDigit? low = some l) : SpellsOctet [high, low] (UInt8.ofNat (16 * h + l)) := by
  have hhigh := (Text.hexDigit?_eq_some_iff.mp hh).1
  have hlow := (Text.hexDigit?_eq_some_iff.mp hl).1
  have hvalue : (UInt8.ofNat (16 * h + l)).toNat = 16 * h + l := by
    rw [UInt8.toNat_ofNat']
    omega
  have hdiv : (16 * h + l) / 16 = h := by omega
  have hmod : (16 * h + l) % 16 = l := by omega
  refine spellsOctet_iff.mpr ⟨high, low, rfl, ?_, ?_⟩
  · rw [hvalue, hdiv, hh]
  · rw [hvalue, hmod, hl]

theorem octet?_eq_some_iff : octet? s = some b ↔ SpellsOctetLoosely s b := by
  have hzero : Text.hexDigit? '0' = some 0 := by decide
  constructor
  · intro h
    unfold octet? at h
    split at h
    · next low =>
      obtain ⟨l, hl, rfl⟩ := Option.map_eq_some_iff.mp h
      refine .inr ⟨low, rfl, ?_⟩
      have hspells := spellsOctet_ofNat hzero hl
      rwa [Nat.mul_zero, Nat.zero_add] at hspells
    · next high low _ =>
      split at h
      · next hh hl =>
        cases h
        exact .inl (spellsOctet_ofNat hh hl)
      · cases h
    · cases h
  · have hsum := Text.ofNat_halves b
    rintro (h | ⟨low, rfl, h⟩)
    · obtain ⟨high, low, rfl, hh, hl⟩ := spellsOctet_iff.mp h
      unfold octet?
      split
      · next heq =>
        -- A plus sign is no digit.
        cases heq
        exact absurd rfl (Text.ne_of_hexDigit? hh (by decide))
      · next heq =>
        cases heq
        simp only [hh, hl, hsum]
      · next hne => exact absurd rfl (hne high low)
    · obtain ⟨_, _, heq, hh, hl⟩ := spellsOctet_iff.mp h
      cases heq
      rw [hzero] at hh
      rw [octet?, hl]
      have hdiv : 0 = b.toNat / 16 := Option.some.inj hh
      rw [← hdiv, Nat.mul_zero, Nat.zero_add] at hsum
      rw [Option.map_some, hsum]

/-- No separator belongs to an octet. -/
theorem isSeparator_of_spellsOctetLoosely (h : SpellsOctetLoosely s b) :
    ∀ c ∈ s, isSeparator c = false := by
  have hdigit {c : Char} {n : Nat} (hc : Text.hexDigit? c = some n) : isSeparator c = false := by
    rw [isSeparator, Bool.or_eq_false_iff, beq_eq_false_iff_ne, beq_eq_false_iff_ne]
    exact ⟨Text.ne_of_hexDigit? hc (by decide), Text.ne_of_hexDigit? hc (by decide)⟩
  have hplain {s : List Char} (h : SpellsOctet s b) : ∀ c ∈ s, isSeparator c = false := by
    obtain ⟨high, low, rfl, hh, hl⟩ := spellsOctet_iff.mp h
    exact List.forall_mem_cons.mpr ⟨hdigit hh, List.forall_mem_singleton.mpr (hdigit hl)⟩
  rcases h with h | ⟨low, rfl, h⟩
  · exact hplain h
  · exact List.forall_mem_cons.mpr ⟨rfl, (List.forall_mem_cons.mp (hplain h)).2⟩

/-- The digits that are written for an octet spell it. -/
theorem spellsOctet_hexPair (b : UInt8) : SpellsOctet (Text.hexPair b) b := by
  have hlower : ∀ c ∈ Text.hexPair b, c.toLower = c := Text.forall_mem_hexPair (by decide) b
  rw [SpellsOctet, List.map_congr_left hlower, List.map_id']

/-- There is a plus sign in an octet only where it stands for a zero. -/
theorem spellsOctet_iff_loosely : SpellsOctet s b ↔ SpellsOctetLoosely s b ∧ '+' ∉ s := by
  constructor
  · intro h
    refine ⟨.inl h, ?_⟩
    obtain ⟨high, low, rfl, hh, hl⟩ := spellsOctet_iff.mp h
    intro hmem
    rcases List.mem_cons.mp hmem with rfl | hmem
    · exact Text.ne_of_hexDigit? hh (by decide) rfl
    · exact Text.ne_of_hexDigit? hl (by decide) (List.mem_singleton.mp hmem).symm
  · rintro ⟨h | ⟨low, rfl, -⟩, hplus⟩
    · exact h
    · exact absurd List.mem_cons_self hplus

/-! ### Addresses -/

/-- The texts of an address: two digits for each octet, and single colons or dashes between them. -/
def Spells (s : List Char) (a : HardwareAddress) : Prop :=
  ∃ groups, Text.Joined isSeparator groups s ∧ List.Forall₂ SpellsOctet groups a.octets

/-- The texts of an address if a plus sign can stand in the place of a zero. -/
def SpellsLoosely (s : List Char) (a : HardwareAddress) : Prop :=
  ∃ groups, Text.Joined isSeparator groups s ∧ List.Forall₂ SpellsOctetLoosely groups a.octets

theorem ofText?_eq_some_iff : ofText? s = some a ↔ SpellsLoosely s a := by
  have hread (bs : List UInt8) : (Text.fields isSeparator s).mapM octet? = some bs ↔
      List.Forall₂ SpellsOctetLoosely (Text.fields isSeparator s) bs := by
    rw [Text.mapM_eq_some_iff]
    simp only [octet?_eq_some_iff]
  rw [ofText?]
  constructor
  · intro h
    split at h
    · next b₀ b₁ b₂ b₃ b₄ b₅ hoctets =>
      cases h
      exact ⟨_, Text.joined_fields isSeparator s, (hread _).mp hoctets⟩
    · cases h
  · rintro ⟨groups, hjoined, hgroups⟩
    have hfields : Text.fields isSeparator s = groups := by
      refine Text.fields_eq_iff.mpr ⟨hjoined, fun g hg => ?_⟩
      obtain ⟨b, hb⟩ := Text.exists_of_mem_forall₂ hgroups hg
      exact isSeparator_of_spellsOctetLoosely hb
    rw [← hfields] at hgroups
    rw [(hread _).mpr hgroups]
    rfl

theorem parse_eq_ok_iff {s : String} : parse s = .ok a ↔ ofText? s.toList = some a := by
  rw [parse]
  split
  · next a' ha =>
    rw [ha, Except.ok.injEq, Option.some.injEq]
  · next hnone =>
    rw [hnone]
    exact iff_of_false nofun nofun

theorem joined_toChars (a : HardwareAddress) :
    Text.Joined isSeparator (a.octets.map Text.hexPair) a.toChars :=
  Text.joined_intercalate rfl _ _

theorem spells_toChars (a : HardwareAddress) : Spells a.toChars a := by
  refine ⟨_, joined_toChars a, List.forall₂_map_left_iff.mpr ?_⟩
  exact List.forall₂_same.mpr fun b _ => spellsOctet_hexPair b

/-- The texts of an address are those without a plus sign that are read as it. -/
theorem spells_iff : Spells s a ↔ SpellsLoosely s a ∧ '+' ∉ s := by
  constructor
  · rintro ⟨groups, hjoined, hgroups⟩
    refine ⟨⟨groups, hjoined, hgroups.imp fun g b h => .inl h⟩, fun hmem => ?_⟩
    obtain ⟨g, hg, hplus⟩ := hjoined.exists_mem hmem rfl
    obtain ⟨b, hb⟩ := Text.exists_of_mem_forall₂ hgroups hg
    exact (spellsOctet_iff_loosely.mp hb).2 hplus
  · rintro ⟨⟨groups, hjoined, hgroups⟩, hplus⟩
    have hnone : ∀ g ∈ groups, '+' ∉ g := fun g hg hmem => hplus (hjoined.mem hg hmem)
    have hboth := (List.forall₂_and_left _ _).mpr ⟨hnone, hgroups⟩
    exact ⟨groups, hjoined, hboth.imp fun g b h => spellsOctet_iff_loosely.mpr ⟨h.2, h.1⟩⟩

theorem ofText?_toChars (a : HardwareAddress) : ofText? a.toChars = some a :=
  ofText?_eq_some_iff.mpr (spells_iff.mp (spells_toChars a)).1

theorem parse_toText (a : HardwareAddress) : parse a.toText = .ok a := by
  rw [parse, toText, String.toList_ofList, ofText?_toChars]

/-- **Which texts are read as a hardware address.**  A text is read as an address if it has two
characters for each octet, between single colons or dashes, which are two hexadecimal digits in
either case that stand for the octet, or a plus sign and one such digit; every other text is
refused, and is in the error.  So the texts of digits alone are those that are read and have no
plus sign. -/
theorem parse_spells (s : String) :
    (∀ a, parse s = .ok a ↔ SpellsLoosely s.toList a) ∧
    (parse s = .error ⟨s⟩ ↔ ¬∃ a, SpellsLoosely s.toList a) ∧
    ∀ a, Spells s.toList a ↔ parse s = .ok a ∧ '+' ∉ s.toList := by
  have hok (a : HardwareAddress) : parse s = .ok a ↔ SpellsLoosely s.toList a :=
    parse_eq_ok_iff.trans ofText?_eq_some_iff
  refine ⟨hok, ?_, fun a => ?_⟩
  · simp only [← hok]
    rw [parse]
    split
    · next a _ => exact iff_of_false nofun fun h => h ⟨a, rfl⟩
    · exact iff_of_true rfl nofun
  · rw [hok]
    exact spells_iff

/-- A plus sign is taken for a digit. -/
theorem parse_spells_plus : parse "+f:00:00:00:00:00" = .ok ⟨⟨0x0F, 0, 0⟩, ⟨0, 0, 0⟩⟩ ∧
    ¬∃ a, Spells "+f:00:00:00:00:00".toList a := by
  have hread : parse "+f:00:00:00:00:00" = .ok ⟨⟨0x0F, 0, 0⟩, ⟨0, 0, 0⟩⟩ := by decide
  refine ⟨hread, ?_⟩
  rintro ⟨a, ha⟩
  exact absurd (((parse_spells _).2.2 a).mp ha).2 (by decide)

end LeaseKeeper.HardwareAddress
