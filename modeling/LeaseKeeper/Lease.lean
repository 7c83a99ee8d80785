/-
Leases and sets of them.

* `Lease.isExpired`, `Lease.overdue` — whether a lease has run out at a moment, and for how
  long;
* `LeaseSet` — the leases known at one time, in the order in which they are stored;
* `LeaseSet.countInForce`, `LeaseSet.find?` — questions about a set.
-/
import LeaseKeeper.HardwareAddress
import LeaseKeeper.Net.Ipv4
import LeaseKeeper.Time.Instant

namespace LeaseKeeper

/-- An address that is lent to a client. -/
structure Lease where
  ordinal : Int64
  address : Ipv4
  hardwareAddress : HardwareAddress
  hostname : String
  hostnameOverride : String
  /-- When the lease runs out; a static lease never does. -/
  expiry : Option Instant
  deriving DecidableEq

namespace Lease

def isStatic (l : Lease) : Bool := l.expiry.isNone

/-- Whether the lease has run out at `now`. -/
def isExpired (l : Lease) (now : Instant) : Bool := l.expiry.any now.reached

/-- The nanoseconds for which the lease has been run out at `now`. -/
def overdue (l : Lease) (now : Instant) : Option Nat :=
  (l.expiry.filter now.reached).bind now.since

/-- The configured hostname if there is one, else the one that the client announced. -/
def shownHostname (l : Lease) : String :=
  if l.hostnameOverride.isEmpty then l.hostname else l.hostnameOverride

end Lease

abbrev LeaseSet := List Lease

namespace LeaseSet

/-- The number of leases that have not run out at `now`. -/
def countInForce (s : LeaseSet) (now : Instant) : Nat :=
  s.countP fun l => !l.isExpired now

/-- The first lease of an address. -/
def find? (s : LeaseSet) (a : Ipv4) : Option Lease := List.find? (fun l => l.address == a) s

end LeaseSet

end LeaseKeeper
