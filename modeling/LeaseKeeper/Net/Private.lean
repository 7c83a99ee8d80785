/-
Addresses of private networks.

* `Network.contains` — an address lies in a network if the two agree in the network's leading
  bits;
* `Address.isPrivate` — loopback, site networks and link-local networks; an IPv4-mapped
  address is judged by the IPv4 address it stands for;
* `Address.isLinkLocal` — the link-local networks of each family, as written;
* `interfaceAddresses` — the addresses to listen on, chosen from those of the interfaces.
-/
import LeaseKeeper.Net.Address

namespace LeaseKeeper

/-- The addresses of `width` bits that share the first `length` bits of `base`. -/
structure Network (width : Nat) where
  base : BitVec width
  length : Nat

def Network.contains {width : Nat} (n : Network width) (a : BitVec width) : Bool :=
  a.toNat >>> (width - n.length) == n.base.toNat >>> (width - n.length)

/-- The link-local IPv4 network 169.254.0.0/16. -/
def linkLocalIpv4 : Network 32 := ⟨(Ipv4.ofOctets 169 254 0 0).bits, 16⟩

/-- The link-local IPv6 network fe80::/10. -/
def linkLocalIpv6 : Network 128 := ⟨(Ipv6.ofGroups [0xfe80, 0, 0, 0, 0, 0, 0, 0]).bits, 10⟩

/-- The private IPv4 networks: 127.0.0.0/8, 10.0.0.0/8, 172.16.0.0/12, 192.168.0.0/16 and
the link-local one. -/
def privateIpv4 : List (Network 32) :=
  [⟨(Ipv4.ofOctets 127 0 0 0).bits, 8⟩, ⟨(Ipv4.ofOctets 10 0 0 0).bits, 8⟩,
    ⟨(Ipv4.ofOctets 172 16 0 0).bits, 12⟩, ⟨(Ipv4.ofOctets 192 168 0 0).bits, 16⟩,
    linkLocalIpv4]

/-- The private IPv6 networks: ::1/128, fc00::/7 and the link-local one. -/
def privateIpv6 : List (Network 128) :=
  [⟨1, 128⟩, ⟨(Ipv6.ofGroups [0xfc00, 0, 0, 0, 0, 0, 0, 0]).bits, 7⟩, linkLocalIpv6]

def Ipv4.isPrivate (a : Ipv4) : Bool := privateIpv4.any (·.contains a.bits)

namespace Address

/-- Whether an address belongs to a private network, in either spelling. -/
def isPrivate : Address → Bool
  | .v4 a => a.isPrivate
  | .v6 a =>
    match a.mapped? with
    | some inner => inner.isPrivate
    | none => privateIpv6.any (·.contains a.bits)

/-- Whether an address lies in the link-local network of its own family. -/
def isLinkLocal : Address → Bool
  | .v4 a => linkLocalIpv4.contains a.bits
  | .v6 a => linkLocalIpv6.contains a.bits

/-- Whether an address is 127.0.0.0/8 or ::1, as written. -/
def isLoopback : Address → Bool
  | .v4 a => a.octet 3 == 127
  | .v6 a => a.bits.toNat == 1

/-- An address that the interfaces contribute on their own: private, but not link-local. -/
def isExposable (a : Address) : Bool := a.isPrivate && !a.isLinkLocal

end Address

/-- The addresses to listen on: the extra ones, and of those that the interfaces report
(`none` for an entry without an IP address) the private ones that are not link-local. -/
def interfaceAddresses (extras : List Address) (reported : List (Option Address)) :
    List Address :=
  Address.ascending (extras ++ (reported.filterMap id).filter Address.isExposable)

end LeaseKeeper
