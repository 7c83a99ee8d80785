/-
The texts of addresses.

`Ipv6.Spells` and `Address.Spells` say which texts an address has: an IPv4 address has one, an IPv6
address has many.

* `Ipv6.ofText?_eq_some_iff` — the texts of an IPv6 address are those that are read as it;
* `Address.ofChars?_eq_some_iff` — the same for both families, of which no two addresses share a
  text.
-/
import LeaseKeeper.Net.Address
import LeaseKeeper.Proofs.Net.Ipv4

namespace LeaseKeeper

namespace Ipv6

/-- One to four hexadecimal digits spell a group. -/
structure SpellsGroup (s : List Char) (g : Nat) : Prop where
  ne_nil : s ≠ []
  short : s.length ≤ 4
  digits : ∃ ds, s.mapM Text.hexDigit? = some ds ∧ g = ds.foldl (fun n d => 16 * n + d) 0

/-- The groups that pieces spell, one each.  If `embedded`, the last piece may be the text of an
IPv4 address, which stands for two groups. -/
inductive SpellsGroups (embedded : Bool) : List (List Char) → List Nat → Prop
  | nil : SpellsGroups embedded [] []
  | group {s : List Char} {g : Nat} {pieces : List (List Char)} {gs : List Nat} :
    SpellsGroup s g → SpellsGroups embedded pieces gs →
    SpellsGroups embedded (s :: pieces) (g :: gs)
  | address (a : Ipv4) : embedded = true →
    SpellsGroups embedded [a.toChars] [a.bits.toNat / 65536, a.bits.toNat % 65536]

/-- The texts of an address: eight groups between colons, or at most seven with a double colon in
the place of zeros. -/
inductive Spells : List Char → Ipv6 → Prop
  | full {pieces : List (List Char)} {gs : List Nat} : SpellsGroups true pieces gs →
    gs.length = 8 → Spells (List.intercalate [':'] pieces) (ofGroups gs)
  | compressed {before after : List (List Char)} {front back : List Nat} :
    SpellsGroups false before front → SpellsGroups true after back →
    front.length + back.length ≤ 7 →
    Spells (List.intercalate [':'] before ++ [':', ':'] ++ List.intercalate [':'] after)
      (ofGroups (front ++ List.replicate (8 - (front.length + back.length)) 0 ++ back))

variable {embedded : Bool} {s : List Char} {g : Nat} {pieces : List (List Char)} {gs : List Nat}
  {a : Ipv6}

/-! ### Pieces and groups -/

theorem group?_eq_some_iff : group? s = some g ↔ SpellsGroup s g := by
  rw [group?]
  constructor
  · intro h
    split at h
    · cases h
    · next hsize =>
      obtain ⟨ds, hds, rfl⟩ := Option.map_eq_some_iff.mp h
      rw [not_or, Nat.not_lt] at hsize
      exact ⟨hsize.1, hsize.2, ds, hds, rfl⟩
  · rintro ⟨hne, hshort, ds, hds, rfl⟩
    rw [if_neg (not_or.mpr ⟨hne, Nat.not_lt.mpr hshort⟩), hds]
    rfl

theorem SpellsGroup.notMem_colon (h : SpellsGroup s g) : ':' ∉ s := by
  intro hmem
  obtain ⟨ds, hds, -⟩ := h.digits
  exact Text.ne_none_of_mapM hds hmem (by decide)

theorem lt_length_toChars (a : Ipv4) : 4 < a.toChars.length := by
  have hpos (n : Nat) : 0 < (Text.decimal n).length := List.length_pos_iff.mpr Nat.toDigits_ne_nil
  have h3 := hpos (a.octet 3)
  have h2 := hpos (a.octet 2)
  have h1 := hpos (a.octet 1)
  have h0 := hpos (a.octet 0)
  simp only [Ipv4.toChars, Ipv4.octets, List.map_cons, List.map_nil, List.intercalate_cons_cons,
    List.intercalate_singleton, List.length_append, List.length_cons, List.length_nil]
  omega

/-- The text of an IPv4 address is too long for a group. -/
theorem group?_toChars (a : Ipv4) : group? a.toChars = none := by
  rw [group?, if_pos (.inr (lt_length_toChars a))]

theorem notMem_colon_toChars (a : Ipv4) : ':' ∉ a.toChars := by
  have hdecimal (n : Nat) : ':' ∉ Text.decimal n := fun h =>
    absurd (Text.mem_decimal_isDigit h) (by decide)
  simp only [Ipv4.toChars, Ipv4.octets, List.map_cons, List.map_nil, List.intercalate_cons_cons,
    List.intercalate_singleton, List.mem_append, List.mem_singleton, hdecimal, or_false, false_or]
  decide

theorem groups?_eq_some_iff :
    groups? embedded pieces = some gs ↔ SpellsGroups embedded pieces gs := by
  constructor
  · intro h
    induction pieces generalizing gs with
    | nil =>
      cases h
      exact .nil
    | cons piece pieces ih =>
      cases pieces with
      | nil =>
        rw [groups?] at h
        split at h
        · next g hg =>
          cases h
          exact .group (group?_eq_some_iff.mp hg) .nil
        · split at h
          · next hembedded =>
            obtain ⟨v4, hv4, rfl⟩ := Option.map_eq_some_iff.mp h
            rw [Ipv4.ofText?_eq_some_iff.mp hv4]
            exact .address v4 hembedded
          · cases h
      | cons next pieces =>
        rw [groups?] at h
        · split at h
          · next g gs' hg hgs =>
            cases h
            exact .group (group?_eq_some_iff.mp hg) (ih hgs)
          · cases h
        · exact nofun
  · intro h
    induction h with
    | nil => rfl
    | @group s g pieces gs hg hgs ih =>
      have hgroup := group?_eq_some_iff.mpr hg
      cases pieces with
      | nil =>
        cases hgs
        rw [groups?, hgroup]
      | cons next pieces =>
        rw [groups?, hgroup, ih]
        exact nofun
    | address v4 hembedded =>
      rw [groups?, group?_toChars, if_pos hembedded, Ipv4.ofText?_toChars]
      rfl

/-- Pieces that spell groups are not empty, and hold no colon. -/
theorem SpellsGroups.piece (h : SpellsGroups embedded pieces gs) :
    ∀ s ∈ pieces, s ≠ [] ∧ ':' ∉ s := by
  induction h with
  | nil => exact nofun
  | group hg _ ih =>
    intro s hs
    rcases List.mem_cons.mp hs with rfl | hs
    · exact ⟨hg.ne_nil, hg.notMem_colon⟩
    · exact ih s hs
  | address v4 _ =>
    intro s hs
    rw [List.mem_singleton.mp hs]
    exact ⟨List.ne_nil_of_length_pos (Nat.zero_lt_of_lt (lt_length_toChars v4)),
      notMem_colon_toChars v4⟩

theorem fields_pieces (h : ∀ s ∈ pieces, s ≠ [] ∧ ':' ∉ s) (hne : pieces ≠ []) :
    Text.fields (· == ':') (List.intercalate [':'] pieces) = pieces := by
  cases pieces with
  | nil => exact absurd rfl hne
  | cons piece pieces =>
    refine Text.fields_intercalate rfl fun s hs c hc => ?_
    refine beq_false_of_ne ?_
    rintro rfl
    exact (h s hs).2 hc

theorem groupsOfText?_eq_some_iff : groupsOfText? embedded s = some gs ↔
    ∃ pieces, s = List.intercalate [':'] pieces ∧ SpellsGroups embedded pieces gs := by
  rw [groupsOfText?]
  constructor
  · intro h
    split at h
    · next hs =>
      cases h
      exact ⟨[], hs, .nil⟩
    · exact ⟨_, (Text.intercalate_fields ':' s).symm, groups?_eq_some_iff.mp h⟩
  · rintro ⟨pieces, rfl, h⟩
    cases pieces with
    | nil =>
      cases h
      rfl
    | cons piece pieces =>
      have hfields := fields_pieces h.piece (List.cons_ne_nil piece pieces)
      rw [if_neg, hfields, groups?_eq_some_iff]
      · exact h
      · -- A text without pieces would have one piece that is empty.
        intro hnil
        rw [hnil] at hfields
        cases hfields
        exact (h.piece [] List.mem_cons_self).1 rfl

/-! ### The double colon -/

/-- Pieces between colons, with a colon after the last one, have no double colon. -/
theorem not_infix_pieces (h : ∀ s ∈ pieces, s ≠ [] ∧ ':' ∉ s) :
    ¬[':', ':'] <:+: List.intercalate [':'] pieces ++ [':'] := by
  rintro ⟨u, v, huv⟩
  by_cases hne : pieces = []
  · have hlength := congrArg List.length huv
    rw [hne] at hlength
    simp at hlength
    omega
  · -- What stands between the two colons is an empty piece.
    have hsplit (front back : List Char) : Text.fields (· == ':') (front ++ ':' :: back) =
        Text.fields (· == ':') front ++ Text.fields (· == ':') back :=
      Text.fields_append_cons rfl
    have hleft : Text.fields (· == ':') (u ++ [':', ':'] ++ v) =
        Text.fields (· == ':') u ++ [] :: Text.fields (· == ':') v := by
      rw [List.append_assoc, List.cons_append, hsplit]
      rfl
    have hright : Text.fields (· == ':') (List.intercalate [':'] pieces ++ [':']) =
        pieces ++ [[]] := by
      rw [hsplit, fields_pieces h hne]
      rfl
    rw [huv, hright] at hleft
    obtain ⟨front, last, hv⟩ := List.eq_nil_or_concat (Text.fields (· == ':') v) |>.resolve_left
      (Text.fields_ne_nil v)
    rw [hv, List.concat_eq_append, ← List.cons_append, ← List.append_assoc] at hleft
    obtain ⟨hpieces, -⟩ := List.append_inj' hleft rfl
    refine (h [] ?_).1 rfl
    rw [hpieces]
    exact List.mem_append_right _ List.mem_cons_self

theorem cut?_pieces (h : ∀ s ∈ pieces, s ≠ [] ∧ ':' ∉ s) :
    Text.cut? [':', ':'] (List.intercalate [':'] pieces) = none :=
  Text.cut?_eq_none fun hdouble =>
    not_infix_pieces h (hdouble.trans (List.prefix_append _ _).isInfix)

/-- The first double colon of a text stands where there is none before. -/
theorem cut?_append {front back : List Char} (h : ¬[':', ':'] <:+: front ++ [':']) :
    Text.cut? [':', ':'] (front ++ [':', ':'] ++ back) = some (front, back) := by
  induction front with
  | nil =>
    rw [List.nil_append, List.cons_append, Text.cut?, if_pos ⟨back, rfl⟩]
    rfl
  | cons c front ih =>
    have hp : ¬[':', ':'] <+: c :: (front ++ [':', ':'] ++ back) := by
      intro hstart
      obtain ⟨rfl, hnext⟩ := List.cons_prefix_cons.mp hstart
      refine h (List.IsPrefix.isInfix (List.cons_prefix_cons.mpr ⟨rfl, ?_⟩))
      cases front with
      | nil => exact List.prefix_rfl
      | cons c' front =>
        obtain ⟨rfl, -⟩ := List.cons_prefix_cons.mp hnext
        exact ⟨_, rfl⟩
    have hrest := ih fun hs => h (List.infix_cons hs)
    rw [List.cons_append, List.cons_append, Text.cut?, if_neg hp, hrest]
    rfl

/-! ### Addresses -/

/-- The texts of an address are those that are read as it. -/
theorem ofText?_eq_some_iff : ofText? s = some a ↔ Spells s a := by
  constructor
  · intro h
    rw [ofText?] at h
    split at h
    · split at h
      · next gs hgs =>
        split at h
        · next hlength =>
          cases h
          rw [← Text.intercalate_fields ':' s]
          exact .full (groups?_eq_some_iff.mp hgs) hlength
        · cases h
      · cases h
    · next before after hcut =>
      split at h
      · next front back hfront hback =>
        split at h
        · next hlength =>
          cases h
          obtain ⟨before, rfl, hbefore⟩ := groupsOfText?_eq_some_iff.mp hfront
          obtain ⟨after, rfl, hafter⟩ := groupsOfText?_eq_some_iff.mp hback
          rw [Text.eq_of_cut? hcut]
          exact .compressed hbefore hafter hlength
        · cases h
      · cases h
  · intro h
    cases h with
    | full hgs hlength =>
      rename_i pieces gs
      have hne : pieces ≠ [] := by
        rintro rfl
        cases hgs
        cases hlength
      rw [ofText?, cut?_pieces hgs.piece, fields_pieces hgs.piece hne,
        groups?_eq_some_iff.mpr hgs]
      exact if_pos hlength
    | compressed hfront hback hlength =>
      rw [ofText?, cut?_append (not_infix_pieces hfront.piece)]
      simp only [groupsOfText?_eq_some_iff.mpr ⟨_, rfl, hfront⟩,
        groupsOfText?_eq_some_iff.mpr ⟨_, rfl, hback⟩]
      exact if_pos hlength

/-- No text of an IPv4 address is one of an IPv6 address. -/
theorem ofText?_toChars_ipv4 (v4 : Ipv4) : ofText? v4.toChars = none := by
  have hcolon := notMem_colon_toChars v4
  have hcut : Text.cut? [':', ':'] v4.toChars = none :=
    Text.cut?_eq_none fun hdouble => hcolon (hdouble.subset List.mem_cons_self)
  rw [ofText?, hcut, Text.fields_of_notMem hcolon, groups?_eq_some_iff.mpr (.address v4 rfl)]
  rfl

end Ipv6

namespace Address

/-- The texts of an address. -/
inductive Spells : List Char → Address → Prop
  | v4 (a : Ipv4) : Spells a.toChars (.v4 a)
  | v6 {s : List Char} {a : Ipv6} : Ipv6.Spells s a → Spells s (.v6 a)

theorem ofChars?_eq_some_iff {s : List Char} {a : Address} :
    ofChars? s = some a ↔ Spells s a := by
  rw [ofChars?]
  constructor
  · intro h
    split at h
    · next v4 hv4 =>
      cases h
      rw [Ipv4.ofText?_eq_some_iff.mp hv4]
      exact .v4 v4
    · obtain ⟨v6, hv6, rfl⟩ := Option.map_eq_some_iff.mp h
      exact .v6 (Ipv6.ofText?_eq_some_iff.mp hv6)
  · intro h
    cases h with
    | v4 a => rw [Ipv4.ofText?_toChars]
    | v6 hv6 =>
      have hread := Ipv6.ofText?_eq_some_iff.mpr hv6
      split
      · next v4 hv4 =>
        rw [Ipv4.ofText?_eq_some_iff.mp hv4, Ipv6.ofText?_toChars_ipv4] at hread
        cases hread
      · rw [hread]
        rfl

end Address

end LeaseKeeper
