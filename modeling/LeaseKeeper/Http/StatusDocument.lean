/-
The presentation of leases as a document.

* `statusDocument` — a snapshot as an object with the static and the dynamic leases;
* `statusBody` — its text on one line.
-/
import LeaseKeeper.Json.Value
import LeaseKeeper.StatusPage

namespace LeaseKeeper.Http

def optionalText : Option String → Json.Value
  | some s => .string s
  | none => .null

/-- The presentation of a lease as an object. -/
def leaseDocument (s : LeaseRow) : Json.Value :=
  .object [
    ("num", .integer s.ordinal.toInt),
    ("addr", .string s.address),
    ("hardware_addr", .string s.hardwareAddress),
    ("vendor", optionalText s.vendor),
    ("hostname", .string s.hostname),
    ("hostname_overridden", .boolean s.hostnameOverridden),
    ("display_hostname", .string s.shownHostname),
    ("expiry", optionalText s.expiry),
    ("expired", .boolean s.expired),
    ("static", .boolean s.isStatic),
    ("since", optionalText s.since)]

def statusDocument (s : StatusPage) : Json.Value :=
  .object [
    ("static_leases", .array (s.staticLeases.map leaseDocument)),
    ("dynamic_leases", .array (s.dynamicLeases.map leaseDocument))]

/-- A snapshot as the content of a response. -/
def statusBody (s : StatusPage) : List Char := (statusDocument s).write .compact

end LeaseKeeper.Http
