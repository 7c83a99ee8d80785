/-
Where the addresses to listen on come from.

* `SupplyAnswer` — the addresses that a source names, or why it names none;
* `AddressSupply.answer` — what a source names: a fixed set, or the addresses of the interfaces
  with some extra ones;
* `InterfaceEntry.ip?` — the IP address in an entry of the list of interfaces, if it has one.
-/
import LeaseKeeper.Net.Private

namespace LeaseKeeper

/-- Why a source names no addresses: the interfaces cannot be enumerated. -/
inductive SupplyFailure where
  | noDevice
  deriving DecidableEq, Repr

namespace SupplyFailure

def cause : SupplyFailure → String
  | .noDevice => "ENODEV: No such device"

def message (e : SupplyFailure) : String := "enumerating interface addresses: " ++ e.cause

end SupplyFailure

/-- What a source names. -/
abbrev SupplyAnswer := Except SupplyFailure (List Address)

/-- The address of a socket. -/
inductive SocketAddress where
  | ipv4 (a : Ipv4)
  | ipv6 (a : Ipv6)
  /-- An address of another family, such as that of a link. -/
  | other
  deriving DecidableEq, Repr

/-- An entry of the list of interfaces. -/
structure InterfaceEntry where
  socketAddress? : Option SocketAddress
  deriving DecidableEq, Repr

def InterfaceEntry.ip? (e : InterfaceEntry) : Option Address :=
  match e.socketAddress? with
  | some (.ipv4 a) => some (.v4 a)
  | some (.ipv6 a) => some (.v6 a)
  | some .other => none
  | none => none

/-- A source of addresses. -/
inductive AddressSupply where
  | fixed (addresses : List Address)
  | interfaces (extras : List Address)
  deriving DecidableEq, Repr

namespace AddressSupply

/-- What a source names, given what the interfaces report. -/
def answer (reported : Except SupplyFailure (List (Option Address))) :
    AddressSupply → SupplyAnswer
  | .fixed addresses => .ok (Address.ascending addresses)
  | .interfaces extras => reported.map (interfaceAddresses extras)

/-- What a source names, given the list of interfaces. -/
def answerOf (entries : Except SupplyFailure (List InterfaceEntry)) (s : AddressSupply) :
    SupplyAnswer :=
  s.answer (entries.map (·.map InterfaceEntry.ip?))

end AddressSupply

end LeaseKeeper
