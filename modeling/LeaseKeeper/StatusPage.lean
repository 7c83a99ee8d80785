/-
How leases are presented.

* `LeaseRow.ofLease` — one lease as seen at a moment, with its vendor;
* `StatusPage.ofLeases` — static leases in ascending ordinal, then dynamic ones with the
  latest expiry first; leases that are equal in this keep their stored order;
* `sinceText` — for how long a lease has been run out, or since when if that is more than a
  day.
-/
import LeaseKeeper.Lease
import LeaseKeeper.VendorTable
import LeaseKeeper.Time.Elapsed

namespace LeaseKeeper

structure LeaseRow where
  ordinal : Int64
  address : String
  hardwareAddress : String
  vendor : Option String
  hostname : String
  hostnameOverridden : Bool
  shownHostname : String
  expiry : Option String
  expired : Bool
  isStatic : Bool
  since : Option String
  deriving DecidableEq

/-- The longest time that is shown as such, in nanoseconds: a day. -/
def longestElapsed : Nat := 86400 * 1000000000

/-- How a lease that ran out `elapsed` nanoseconds ago says so. -/
def sinceText (expiry : Instant) (elapsed : Nat) : String :=
  if longestElapsed < elapsed then expiry.minuteText
  else String.ofList (Elapsed.toChars (elapsed / 1000000000))

/-- The presentation of a lease as seen at `now`. -/
def LeaseRow.ofLease (vendors : VendorTable) (now : Instant) (l : Lease) : LeaseRow where
  ordinal := l.ordinal
  address := l.address.toText
  hardwareAddress := l.hardwareAddress.toText
  vendor := vendors.find? l.hardwareAddress
  hostname := l.hostname
  hostnameOverridden := !l.hostnameOverride.isEmpty
  shownHostname := l.shownHostname
  expiry := l.expiry.map Instant.minuteText
  expired := l.isExpired now
  isStatic := l.isStatic
  since := l.expiry.bind fun expiry => (l.overdue now).map (sinceText expiry)

structure StatusPage where
  staticLeases : List LeaseRow
  dynamicLeases : List LeaseRow
  deriving DecidableEq

namespace LeaseSet

/-- The static leases in ascending ordinal. -/
def orderedStatic (s : LeaseSet) : List Lease :=
  (s.filter Lease.isStatic).mergeSort fun a b => a.ordinal ≤ b.ordinal

/-- Whether `a` runs out at the same time as `b` or later. -/
def expiresNoEarlier (a b : Lease) : Bool :=
  match a.expiry, b.expiry with
  | some x, some y => x.reached y
  | some _, none => true
  | none, some _ => false
  | none, none => true

/-- The dynamic leases, the latest expiry first. -/
def orderedDynamic (s : LeaseSet) : List Lease :=
  (s.filter fun l => !l.isStatic).mergeSort expiresNoEarlier

end LeaseSet

/-- The presentation of a set as seen at `now`. -/
def StatusPage.ofLeases (s : LeaseSet) (vendors : VendorTable) (now : Instant) :
    StatusPage where
  staticLeases := s.orderedStatic.map (LeaseRow.ofLease vendors now)
  dynamicLeases := s.orderedDynamic.map (LeaseRow.ofLease vendors now)

end LeaseKeeper
