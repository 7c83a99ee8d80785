/-
The private addresses, as ranges of numbers.

* `Network.contains_iff_inRange` — a network is the range from its first to its last address;
* `Ipv6.mapped?_eq_some_iff` — which address stands for an IPv4 address in the other family;
* `Ipv4.isPrivate_iff`, `Ipv6.isPrivate_iff` — the private addresses of each family;
* `isPrivate_ranges` — both together, and that the link-local addresses are among them.

Design notes: `InPrivateRange` and `IsLinkLocal` give both ends of every range, and so they do
without the networks that the program looks at.
-/
import LeaseKeeper.Net.Private
import Mathlib.Algebra.Group.Nat.Defs

namespace LeaseKeeper

/-! ### Networks -/

/-- The numbers from `first` to `last`. -/
def InRange {width : Nat} (first last a : BitVec width) : Prop := first ≤ a ∧ a ≤ last

namespace Network

variable {width : Nat} {n : Network width} {a : BitVec width}

/-- The number of bits in which the addresses of a network differ. -/
def freeBits (n : Network width) : Nat := width - n.length

/-- The number of the first address. -/
def first (n : Network width) : Nat := n.base.toNat / 2 ^ n.freeBits * 2 ^ n.freeBits

/-- The number of the last address. -/
def last (n : Network width) : Nat := n.first + (2 ^ n.freeBits - 1)

theorem contains_iff : n.contains a = true ↔ n.first ≤ a.toNat ∧ a.toNat ≤ n.last := by
  have hpos : 0 < 2 ^ n.freeBits := Nat.two_pow_pos _
  rw [contains, beq_iff_eq, Nat.shiftRight_eq_div_pow, Nat.shiftRight_eq_div_pow, ← freeBits,
    Nat.div_eq_iff hpos, last, first]
  omega

theorem contains_iff_inRange {first last : BitVec width} (hfirst : n.first = first.toNat)
    (hlast : n.last = last.toNat) : n.contains a = true ↔ InRange first last a := by
  rw [contains_iff, hfirst, hlast]
  rfl

end Network

/-! ### IPv4 -/

namespace Ipv4

variable {a : Ipv4}

/-- The addresses 169.254.0.0 to 169.254.255.255. -/
def IsLinkLocal (a : Ipv4) : Prop :=
  InRange (ofOctets 169 254 0 0).bits (ofOctets 169 254 255 255).bits a.bits

/-- The private addresses: loopback, three site networks and the link-local ones. -/
def InPrivateRange (a : Ipv4) : Prop :=
  InRange (ofOctets 10 0 0 0).bits (ofOctets 10 255 255 255).bits a.bits ∨
  InRange (ofOctets 127 0 0 0).bits (ofOctets 127 255 255 255).bits a.bits ∨
  a.IsLinkLocal ∨
  InRange (ofOctets 172 16 0 0).bits (ofOctets 172 31 255 255).bits a.bits ∨
  InRange (ofOctets 192 168 0 0).bits (ofOctets 192 168 255 255).bits a.bits

theorem linkLocal_contains_iff : linkLocalIpv4.contains a.bits = true ↔ a.IsLinkLocal :=
  Network.contains_iff_inRange (by decide) (by decide)

theorem isPrivate_iff : a.isPrivate = true ↔ a.InPrivateRange := by
  have hloopback : Network.contains ⟨(ofOctets 127 0 0 0).bits, 8⟩ a.bits = true ↔
      InRange (ofOctets 127 0 0 0).bits (ofOctets 127 255 255 255).bits a.bits :=
    Network.contains_iff_inRange (by decide) (by decide)
  have hten : Network.contains ⟨(ofOctets 10 0 0 0).bits, 8⟩ a.bits = true ↔
      InRange (ofOctets 10 0 0 0).bits (ofOctets 10 255 255 255).bits a.bits :=
    Network.contains_iff_inRange (by decide) (by decide)
  -- Twelve bits end within the second octet, and so the range goes on to 31.
  have htwelve : Network.contains ⟨(ofOctets 172 16 0 0).bits, 12⟩ a.bits = true ↔
      InRange (ofOctets 172 16 0 0).bits (ofOctets 172 31 255 255).bits a.bits :=
    Network.contains_iff_inRange (by decide) (by decide)
  have hsixteen : Network.contains ⟨(ofOctets 192 168 0 0).bits, 16⟩ a.bits = true ↔
      InRange (ofOctets 192 168 0 0).bits (ofOctets 192 168 255 255).bits a.bits :=
    Network.contains_iff_inRange (by decide) (by decide)
  simp only [isPrivate, privateIpv4, List.any_cons, List.any_nil, Bool.or_false, Bool.or_eq_true,
    hloopback, hten, htwelve, hsixteen, linkLocal_contains_iff, InPrivateRange]
  -- The program asks for them in another order.
  simp only [or_comm, or_left_comm]

end Ipv4

/-! ### IPv6 -/

namespace Ipv6

variable {a b : Ipv6} {x : Ipv4}

theorem eq_iff_toNat : a = b ↔ a.bits.toNat = b.bits.toNat := by
  rw [BitVec.toNat_inj, Ipv6.mk.injEq]

theorem toNat_ofIpv4 (x : Ipv4) : (ofIpv4 x).bits.toNat = 0xFFFF00000000 + x.bits.toNat := by
  have hbits := x.bits.isLt
  rw [ofIpv4, BitVec.toNat_ofNat]
  omega

/-- Only the IPv4-mapped address of an IPv4 address stands for it. -/
theorem mapped?_eq_some_iff : a.mapped? = some x ↔ a = ofIpv4 x := by
  have hlow : (a.bits.setWidth 32).toNat = a.bits.toNat % 2 ^ 32 := BitVec.toNat_setWidth 32 a.bits
  have hrest : (⟨a.bits.setWidth 32⟩ : Ipv4) = x ↔ a.bits.toNat % 2 ^ 32 = x.bits.toNat := by
    rw [← hlow, BitVec.toNat_inj, Ipv4.mk.injEq]
  have hbits := x.bits.isLt
  rw [mapped?, Nat.shiftRight_eq_div_pow, eq_iff_toNat, toNat_ofIpv4]
  split
  · rw [Option.some.injEq, hrest]
    omega
  · exact iff_of_false nofun (by omega)

theorem mapped?_ofIpv4 (x : Ipv4) : (ofIpv4 x).mapped? = some x := mapped?_eq_some_iff.mpr rfl

/-- The addresses fc00:: to fdff:ffff:ffff:ffff:ffff:ffff:ffff:ffff. -/
def IsUniqueLocal (a : Ipv6) : Prop :=
  InRange (ofGroups [0xfc00, 0, 0, 0, 0, 0, 0, 0]).bits
    (ofGroups [0xfdff, 0xffff, 0xffff, 0xffff, 0xffff, 0xffff, 0xffff, 0xffff]).bits a.bits

/-- The addresses fe80:: to febf:ffff:ffff:ffff:ffff:ffff:ffff:ffff. -/
def IsLinkLocal (a : Ipv6) : Prop :=
  InRange (ofGroups [0xfe80, 0, 0, 0, 0, 0, 0, 0]).bits
    (ofGroups [0xfebf, 0xffff, 0xffff, 0xffff, 0xffff, 0xffff, 0xffff, 0xffff]).bits a.bits

/-- The private addresses: ::1, the unique local and the link-local ones, and the IPv4-mapped
addresses of the private IPv4 addresses. -/
def InPrivateRange (a : Ipv6) : Prop :=
  a = ofGroups [0, 0, 0, 0, 0, 0, 0, 1] ∨ a.IsUniqueLocal ∨ a.IsLinkLocal ∨
  ∃ x : Ipv4, a = ofIpv4 x ∧ x.InPrivateRange

theorem linkLocal_contains_iff : linkLocalIpv6.contains a.bits = true ↔ a.IsLinkLocal :=
  Network.contains_iff_inRange (by decide) (by decide)

theorem privateIpv6_contains_iff : privateIpv6.any (·.contains a.bits) = true ↔
    a = ofGroups [0, 0, 0, 0, 0, 0, 0, 1] ∨ a.IsUniqueLocal ∨ a.IsLinkLocal := by
  have hloopback : Network.contains ⟨1, 128⟩ a.bits = true ↔
      a = ofGroups [0, 0, 0, 0, 0, 0, 0, 1] := by
    have hfirst : (⟨1, 128⟩ : Network 128).first = 1 := by decide
    have hlast : (⟨1, 128⟩ : Network 128).last = 1 := by decide
    have hone : (ofGroups [0, 0, 0, 0, 0, 0, 0, 1]).bits.toNat = 1 := by decide
    rw [Network.contains_iff, hfirst, hlast, eq_iff_toNat, hone]
    omega
  have hunique : Network.contains ⟨(ofGroups [0xfc00, 0, 0, 0, 0, 0, 0, 0]).bits, 7⟩ a.bits = true
      ↔ a.IsUniqueLocal :=
    Network.contains_iff_inRange (by decide) (by decide)
  rw [privateIpv6, List.any_cons, List.any_cons, List.any_cons, List.any_nil, Bool.or_false,
    Bool.or_eq_true, Bool.or_eq_true, hloopback, hunique, linkLocal_contains_iff]

/-- The IPv4-mapped addresses come after ::1 and before the ranges. -/
theorem not_plain_ofIpv4 (x : Ipv4) : ofIpv4 x ≠ ofGroups [0, 0, 0, 0, 0, 0, 0, 1] ∧
    ¬(ofIpv4 x).IsUniqueLocal ∧ ¬(ofIpv4 x).IsLinkLocal := by
  have hx := toNat_ofIpv4 x
  have hbits := x.bits.isLt
  have hbelow {first last : BitVec 128} (hfirst : 2 ^ 48 ≤ first.toNat) :
      ¬InRange first last (ofIpv4 x).bits := fun h => by
    have hle : first.toNat ≤ (ofIpv4 x).bits.toNat := h.1
    omega
  refine ⟨fun hloopback => ?_, hbelow (by decide), hbelow (by decide)⟩
  have hone : (ofIpv4 x).bits.toNat = 1 := congrArg (·.bits.toNat) hloopback
  omega

theorem isPrivate_iff : (Address.v6 a).isPrivate = true ↔ a.InPrivateRange := by
  rw [Address.isPrivate]
  split
  · next x hx =>
    obtain rfl := mapped?_eq_some_iff.mp hx
    have hsame : (∃ y : Ipv4, ofIpv4 x = ofIpv4 y ∧ y.InPrivateRange) ↔ x.InPrivateRange := by
      refine ⟨?_, fun h => ⟨x, rfl, h⟩⟩
      rintro ⟨y, hy, h⟩
      rw [hy, mapped?_ofIpv4] at hx
      cases hx
      exact h
    obtain ⟨hloopback, hunique, hlink⟩ := not_plain_ofIpv4 x
    simp only [Ipv4.isPrivate_iff, InPrivateRange, hloopback, hunique, hlink, hsame, false_or]
  · next hnone =>
    have hmapped : ¬∃ x : Ipv4, a = ofIpv4 x ∧ x.InPrivateRange := by
      rintro ⟨x, rfl, -⟩
      rw [mapped?_ofIpv4] at hnone
      cases hnone
    simp only [privateIpv6_contains_iff, InPrivateRange, hmapped, or_false]

end Ipv6

/-! ### Both families -/

namespace Address

theorem isLinkLocal_v4_iff {x : Ipv4} : (Address.v4 x).isLinkLocal = true ↔ x.IsLinkLocal :=
  Ipv4.linkLocal_contains_iff

theorem isLinkLocal_v6_iff {a : Ipv6} : (Address.v6 a).isLinkLocal = true ↔ a.IsLinkLocal :=
  Ipv6.linkLocal_contains_iff

/-- **Which addresses are private.**  An IPv4 address is private if its number lies in one of five
ranges.  An IPv6 address is private if it is ::1, if its number lies in one of two ranges, or if it
is the IPv4-mapped address of a private IPv4 address.  All link-local addresses are private. -/
theorem isPrivate_ranges :
    (∀ x : Ipv4, (Address.v4 x).isPrivate = true ↔ x.InPrivateRange) ∧
    (∀ a : Ipv6, (Address.v6 a).isPrivate = true ↔ a.InPrivateRange) ∧
    ∀ a : Address, a.isLinkLocal = true → a.isPrivate = true := by
  refine ⟨fun x => Ipv4.isPrivate_iff, fun a => Ipv6.isPrivate_iff, fun a h => ?_⟩
  cases a with
  | v4 x => exact Ipv4.isPrivate_iff.mpr (.inr (.inr (.inl (isLinkLocal_v4_iff.mp h))))
  | v6 a => exact Ipv6.isPrivate_iff.mpr (.inr (.inr (.inl (isLinkLocal_v6_iff.mp h))))

/-- The range of 172.16.0.0/12 ends at 172.31.255.255, in both spellings, and the link-local address
febf:: is private. -/
theorem isPrivate_ranges_edges :
    (Address.v4 (.ofOctets 172 31 255 255)).isPrivate = true ∧
    (Address.v6 (.ofIpv4 (.ofOctets 172 31 255 255))).isPrivate = true ∧
    (Address.v4 (.ofOctets 172 32 0 0)).isPrivate = false ∧
    (Address.v6 (.ofGroups [0xfebf, 0, 0, 0, 0, 0, 0, 0])).isLinkLocal = true ∧
    (Address.v6 (.ofGroups [0xfebf, 0, 0, 0, 0, 0, 0, 0])).isPrivate = true := by
  obtain ⟨hv4, hv6, hlink⟩ := isPrivate_ranges
  have hlast : (Ipv4.ofOctets 172 31 255 255).InPrivateRange :=
    .inr (.inr (.inr (.inl ⟨by decide, by decide⟩)))
  have hfebf : (Address.v6 (.ofGroups [0xfebf, 0, 0, 0, 0, 0, 0, 0])).isLinkLocal = true := by
    decide
  have hmapped : (Ipv6.ofIpv4 (.ofOctets 172 31 255 255)).InPrivateRange :=
    .inr (.inr (.inr ⟨_, rfl, hlast⟩))
  exact ⟨(hv4 _).mpr hlast, (hv6 _).mpr hmapped, by decide, hfebf, hlink _ hfebf⟩

end Address

end LeaseKeeper
