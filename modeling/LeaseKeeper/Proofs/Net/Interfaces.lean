/-
Which addresses of the interfaces are listened on.

* `Reported` — an address stands in the list of interfaces;
* `Address.InLinkLocalRange` — the link-local addresses, in both spellings of an IPv4 address;
* `isExposable_iff` — what the interfaces contribute of their own;
* `interfaces_named` — what a source of addresses names for a list of interfaces.
-/
import LeaseKeeper.Net.AddressSupply
import LeaseKeeper.Proofs.Net.Listing
import LeaseKeeper.Proofs.Net.Private

namespace LeaseKeeper

namespace Address

variable {a : Address}

/-- The socket address with an IP address. -/
def socketAddress : Address → SocketAddress
  | .v4 x => .ipv4 x
  | .v6 b => .ipv6 b

/-- The private addresses of both families. -/
def InPrivateRange : Address → Prop
  | .v4 x => x.InPrivateRange
  | .v6 b => b.InPrivateRange

/-- The IPv4-mapped addresses of the link-local IPv4 addresses. -/
def IsMappedLinkLocal (a : Address) : Prop := ∃ x : Ipv4, a = .v6 (.ofIpv4 x) ∧ x.IsLinkLocal

/-- The link-local addresses of both families, and the IPv4-mapped ones. -/
def InLinkLocalRange : Address → Prop
  | .v4 x => x.IsLinkLocal
  | .v6 b => b.IsLinkLocal ∨ (Address.v6 b).IsMappedLinkLocal

theorem isPrivate_iff_inPrivateRange : a.isPrivate = true ↔ a.InPrivateRange := by
  cases a with
  | v4 x => exact Ipv4.isPrivate_iff
  | v6 b => exact Ipv6.isPrivate_iff

/-- An IPv4-mapped address lies in no link-local network of its own family. -/
theorem isLinkLocal_of_isMappedLinkLocal (h : a.IsMappedLinkLocal) : a.isLinkLocal = false := by
  obtain ⟨x, rfl, -⟩ := h
  rw [← Bool.not_eq_true, isLinkLocal_v6_iff]
  exact (Ipv6.not_plain_ofIpv4 x).2.2

theorem inLinkLocalRange_iff :
    a.InLinkLocalRange ↔ a.isLinkLocal = true ∨ a.IsMappedLinkLocal := by
  cases a with
  | v4 x =>
    have hother : ¬(Address.v4 x).IsMappedLinkLocal := by
      rintro ⟨y, hy, -⟩
      cases hy
    rw [InLinkLocalRange, isLinkLocal_v4_iff, or_iff_left hother]
  | v6 b => rw [InLinkLocalRange, isLinkLocal_v6_iff]

theorem inPrivateRange_of_isMappedLinkLocal (h : a.IsMappedLinkLocal) : a.InPrivateRange := by
  obtain ⟨x, rfl, hx⟩ := h
  exact .inr (.inr (.inr ⟨x, rfl, .inr (.inr (.inl hx))⟩))

/-- The interfaces contribute the private addresses that are not link-local, and the link-local ones
that are IPv4-mapped. -/
theorem isExposable_iff : a.isExposable = true ↔
    (a.InPrivateRange ∧ ¬a.InLinkLocalRange) ∨ a.IsMappedLinkLocal := by
  rw [isExposable, Bool.and_eq_true, Bool.not_eq_true', isPrivate_iff_inPrivateRange,
    inLinkLocalRange_iff, not_or, Bool.not_eq_true]
  by_cases h : a.IsMappedLinkLocal
  · exact iff_of_true ⟨inPrivateRange_of_isMappedLinkLocal h, isLinkLocal_of_isMappedLinkLocal h⟩
      (.inr h)
  · rw [or_iff_left h, and_iff_left h]

end Address

/-- An entry of the list of interfaces has the address. -/
def Reported (entries : List InterfaceEntry) (a : Address) : Prop :=
  ⟨some a.socketAddress⟩ ∈ entries

variable {extras extras' : List Address} {entries entries' : List InterfaceEntry} {a : Address}

theorem InterfaceEntry.ip?_eq_some_iff {e : InterfaceEntry} :
    e.ip? = some a ↔ e = ⟨some a.socketAddress⟩ := by
  obtain ⟨_ | s⟩ := e
  · exact iff_of_false nofun nofun
  · cases s <;> cases a <;> simp [ip?, Address.socketAddress]

theorem mem_reported_iff : a ∈ (entries.map InterfaceEntry.ip?).filterMap id ↔
    Reported entries a := by
  rw [List.filterMap_map, List.mem_filterMap]
  simp only [Function.comp_apply, id_eq, InterfaceEntry.ip?_eq_some_iff, exists_eq_right, Reported]

theorem lists_interfaceAddresses (extras : List Address) (entries : List InterfaceEntry) :
    Lists (interfaceAddresses extras (entries.map InterfaceEntry.ip?)) fun a =>
      a ∈ extras ∨ (Reported entries a ∧ a.isExposable = true) := by
  refine (lists_ascending _).congr fun a => ?_
  rw [List.mem_append, List.mem_filter, mem_reported_iff]

/-- A reported address is link-local, but it is named all the same. -/
def Overlooked (extras : List Address) (entries : List InterfaceEntry) (a : Address) : Prop :=
  a ∉ extras ∧ Reported entries a ∧ a.IsMappedLinkLocal

/-- What is named depends on which addresses are reported, and not on their order or number. -/
theorem interfaceAddresses_congr (hextras : ∀ a, a ∈ extras' ↔ a ∈ extras)
    (hentries : ∀ a, Reported entries' a ↔ Reported entries a) :
    interfaceAddresses extras' (entries'.map InterfaceEntry.ip?) =
      interfaceAddresses extras (entries.map InterfaceEntry.ip?) := by
  refine (lists_interfaceAddresses extras' entries').eq ?_
  refine (lists_interfaceAddresses extras entries).congr fun a => ?_
  rw [hextras, hentries]

/-- **The addresses of the interfaces.**  A source names its extra addresses, and of those that the
interfaces report the private ones that are not link-local, whatever else stands in the list and in
whatever order.  It also names the reported IPv4-mapped addresses of link-local IPv4 addresses.  So
no other address than the extra ones is link-local exactly if none of these is reported. -/
theorem interfaces_named (extras : List Address) (entries : List InterfaceEntry) :
    ∃ found, (AddressSupply.interfaces extras).answerOf (.ok entries) = .ok found ∧
      Lists found (fun a => a ∈ extras ∨
        (Reported entries a ∧ a.InPrivateRange ∧ ¬a.InLinkLocalRange) ∨
        Overlooked extras entries a) ∧
      (∀ extras' entries', (∀ a, a ∈ extras' ↔ a ∈ extras) →
        (∀ a, Reported entries' a ↔ Reported entries a) →
        (AddressSupply.interfaces extras').answerOf (.ok entries') = .ok found) ∧
      ((∀ a ∈ found, a ∉ extras → ¬a.InLinkLocalRange) ↔ ¬∃ a, Overlooked extras entries a) := by
  have hlists : Lists (interfaceAddresses extras (entries.map InterfaceEntry.ip?)) fun a =>
      a ∈ extras ∨ (Reported entries a ∧ a.InPrivateRange ∧ ¬a.InLinkLocalRange) ∨
        Overlooked extras entries a := by
    refine (lists_interfaceAddresses extras entries).congr fun a => ?_
    rw [Address.isExposable_iff, Overlooked]
    by_cases ha : a ∈ extras
    · exact iff_of_true (.inl ha) (.inl ha)
    · rw [or_iff_right ha, or_iff_right ha, and_or_left, and_iff_right ha]
  refine ⟨_, rfl, hlists, fun extras' entries' hextras hentries => ?_, ?_⟩
  · exact congrArg Except.ok (interfaceAddresses_congr hextras hentries)
  · constructor
    · rintro hnone ⟨a, ha⟩
      refine hnone a ((hlists.mem_iff a).mpr (.inr (.inr ha))) ha.1 ?_
      exact Address.inLinkLocalRange_iff.mpr (.inr ha.2.2)
    · intro hnone a ha hother
      rcases (hlists.mem_iff a).mp ha with hextra | hplain | hlooked
      · exact absurd hextra hother
      · exact hplain.2.2
      · exact absurd ⟨a, hlooked⟩ hnone

/-- A list with 169.254.1.1 in both spellings, an entry of another family and one without an
address: the plain spelling is left out, and the IPv4-mapped one is named. -/
theorem interfaces_named_mapped :
    let x := Ipv4.ofOctets 169 254 1 1
    let entries : List InterfaceEntry :=
      [⟨some .other⟩, ⟨some (.ipv6 (.ofIpv4 x))⟩, ⟨none⟩, ⟨some (.ipv4 x)⟩]
    (Address.v6 (.ofIpv4 x)).InLinkLocalRange ∧
    ∃ found, (AddressSupply.interfaces []).answerOf (.ok entries) = .ok found ∧
      .v6 (.ofIpv4 x) ∈ found ∧ .v4 x ∉ found := by
  intro x entries
  have hlink : x.IsLinkLocal := ⟨by decide, by decide⟩
  have hmapped : (Address.v6 (.ofIpv4 x)).IsMappedLinkLocal := ⟨x, rfl, hlink⟩
  obtain ⟨found, hfound, hlists, -⟩ := interfaces_named [] entries
  have hoverlooked : Overlooked [] entries (.v6 (.ofIpv4 x)) :=
    ⟨nofun, List.mem_cons_of_mem _ List.mem_cons_self, hmapped⟩
  refine ⟨.inr hmapped, found, hfound, ?_, ?_⟩
  · exact (hlists.mem_iff _).mpr (.inr (.inr hoverlooked))
  · rw [hlists.mem_iff]
    rintro (hextra | ⟨-, -, hnot⟩ | ⟨-, -, y, hy, -⟩)
    · cases hextra
    · exact hnot hlink
    · cases hy

end LeaseKeeper
