/-
The status service, as it is offered on every endpoint.

* `statusResponse` — the leases, for clients that are admitted;
* `metricsResponse` — the metrics, for everybody;
* `respond` — the response to a request, by its path and method.
-/
import LeaseKeeper.Http.Access
import LeaseKeeper.Http.StatusDocument
import LeaseKeeper.Metrics.Exposition

namespace LeaseKeeper.Http

/-- What the service shows. -/
structure View where
  leases : LeaseSet
  vendors : VendorTable
  now : Instant
  metrics : Metrics.Registry

/-- The response to a request for the leases. -/
def statusResponse (v : View) (r : Request) : Response :=
  match r.peer with
  | none => .plain 400 "bad request".toList
  | some peer =>
    let client := Client.ofPeer peer r.headers
    if client.isAdmitted then
      ⟨200, some "application/json", none, statusBody (.ofLeases v.leases v.vendors v.now)⟩
    else .plain 403 ("access from ".toList ++ client.text ++ " forbidden".toList)

/-- The response to a request for the metrics. -/
def metricsResponse (v : View) : Response :=
  ⟨200, some "text/plain; version=0.0.4", none, Metrics.exposition v.metrics⟩

/-- What the service offers. -/
inductive Route where
  | status
  | metrics
  deriving DecidableEq, Repr

def Route.ofPath? (path : List Char) : Option Route :=
  if path = ['/'] then some .status
  else if path = "/metrics".toList then some .metrics
  else none

def Route.response (v : View) (r : Request) : Route → Response
  | .status => statusResponse v r
  | .metrics => metricsResponse v

/-- The response to a request. -/
def respond (v : View) (r : Request) : Response :=
  match Route.ofPath? (targetPath r.target) with
  | none => .bare 404
  | some route =>
    match r.method with
    | .get => route.response v r
    | .head => { route.response v r with body := [] }
    | .other _ => { Response.bare 405 with allow := some "GET,HEAD" }

end LeaseKeeper.Http
