/-
Who gets to see the leases.

The service answers from a store that is in use meanwhile: sets are replaced and observers are
registered between requests.

* `ServiceRun.perform`, `ServiceRun.performAll` — actions on the store and requests, in any order;
* `store_performAll` — requests leave the store as it is;
* `respond_direct`, `respond_refused`, `respond_admitted` — the response to a request for the
  leases, by the client that it is judged by;
* `disclosure` — the leases are shown to those who are admitted, and to nobody else.
-/
import LeaseKeeper.Proofs.Http.Client
import LeaseKeeper.Proofs.Http.StatusDocument
import LeaseKeeper.Proofs.Store.Agreement

namespace LeaseKeeper.Http

/-- What reaches a service in operation. -/
inductive ServiceAction (ι : Type) where
  | store (action : StoreAction ι)
  | request (r : Request)

/-- A service in operation, with the responses that it has given. -/
structure ServiceRun (σ : Type) where
  store : StoreRun σ
  vendors : VendorTable
  /-- The metrics when the gauge has a value. -/
  metrics : Nat → Metrics.Registry
  responses : List Response

variable {σ ι : Type} {storage : ι → Storage σ} {v w : View} {r : Request} {peer a : Address}

namespace ServiceRun

/-- What the service shows at a clock that shows `now`. -/
def view (s : ServiceRun σ) (now : Instant) : View where
  leases := s.store.store.current
  vendors := s.vendors
  now := now
  metrics := s.metrics s.store.gauge

/-- Meets an action at a clock that shows `now`. -/
def perform (storage : ι → Storage σ) (s : ServiceRun σ) :
    Instant × ServiceAction ι → ServiceRun σ
  | (now, .store action) => { s with store := s.store.perform storage (now, action) }
  | (now, .request r) => { s with responses := s.responses ++ [respond (s.view now) r] }

def performAll (storage : ι → Storage σ) (s : ServiceRun σ)
    (actions : List (Instant × ServiceAction ι)) : ServiceRun σ :=
  actions.foldl (perform storage) s

end ServiceRun

/-- The actions on the store. -/
def storeActions (actions : List (Instant × ServiceAction ι)) : List (Instant × StoreAction ι) :=
  actions.filterMap fun
    | (now, .store action) => some (now, action)
    | (_, .request _) => none

/-! ### The store under requests -/

theorem vendors_performAll (s : ServiceRun σ) (actions : List (Instant × ServiceAction ι)) :
    (s.performAll storage actions).vendors = s.vendors := by
  induction actions generalizing s with
  | nil => rfl
  | cons action actions ih =>
    obtain ⟨now, store | request⟩ := action
    · exact ih _
    · exact ih _

/-- However many requests come in between, the store is where its own actions have led it. -/
theorem store_performAll (s : ServiceRun σ) (actions : List (Instant × ServiceAction ι)) :
    (s.performAll storage actions).store = s.store.performAll storage (storeActions actions) := by
  induction actions generalizing s with
  | nil => rfl
  | cons action actions ih =>
    obtain ⟨now, action | request⟩ := action
    · exact ih (s.perform storage (now, .store action))
    · exact ih (s.perform storage (now, .request request))

/-! ### One response -/

/-- Whether a request for the leases is refused: nobody knows whom it comes from, or it is judged by
an address that is not private, or by none. -/
def Request.IsRefused (r : Request) : Prop :=
  r.peer = none ∨ ∃ peer c, r.peer = some peer ∧ Effective peer r.headers c ∧
    ∀ a, c = some a → a.isPrivate = false

theorem respond_get (hmethod : r.method = .get)
    (hroute : Route.ofPath? (targetPath r.target) = some .status) :
    respond v r = statusResponse v r := by
  rw [respond, hroute, hmethod]
  rfl

/-- A peer that is not on the loopback interface speaks for itself. -/
theorem respond_direct (hmethod : r.method = .get)
    (hroute : Route.ofPath? (targetPath r.target) = some .status) (hpeer : r.peer = some peer)
    (hdirect : peer.isLoopback = false) (headers : List Header) :
    respond v { r with headers } = respond v r := by
  have hjudged (headers : List Header) : Client.ofPeer peer headers = .address peer :=
    Client.ofPeer_direct fun hloopback => absurd hloopback (by simp [hdirect])
  rw [respond_get hmethod hroute, respond_get (r := { r with headers }) hmethod hroute,
    statusResponse, statusResponse, hpeer]
  dsimp only
  rw [hjudged, hjudged]

theorem isAdmitted_of_effective {c : Option Address} (h : Effective peer r.headers c) :
    (Client.ofPeer peer r.headers).isAdmitted = true ↔ ∃ a, c = some a ∧ a.isPrivate = true := by
  rw [Client.isAdmitted_iff, effective_iff.mp h]

/-- The response to a request that is refused does not depend on what the service could show. -/
theorem respond_refused (hmethod : r.method = .get)
    (hroute : Route.ofPath? (targetPath r.target) = some .status) (h : r.IsRefused) (v w : View) :
    respond v r = respond w r := by
  rw [respond_get hmethod hroute, respond_get hmethod hroute, statusResponse, statusResponse]
  rcases h with hnone | ⟨peer, c, hpeer, hjudged, hpublic⟩
  · rw [hnone]
  · have hrefused : ¬(Client.ofPeer peer r.headers).isAdmitted = true := by
      rw [isAdmitted_of_effective hjudged]
      rintro ⟨a, ha, hprivate⟩
      rw [hpublic a ha] at hprivate
      cases hprivate
    rw [hpeer]
    dsimp only
    rw [if_neg hrefused, if_neg hrefused]

theorem respond_admitted (hmethod : r.method = .get)
    (hroute : Route.ofPath? (targetPath r.target) = some .status) (hpeer : r.peer = some peer)
    (hjudged : Effective peer r.headers (some a)) (hprivate : a.isPrivate = true) (v : View) :
    respond v r =
      ⟨200, some "application/json", none, statusBody (.ofLeases v.leases v.vendors v.now)⟩ := by
  have hadmitted : (Client.ofPeer peer r.headers).isAdmitted = true :=
    (isAdmitted_of_effective hjudged).mpr ⟨a, rfl, hprivate⟩
  rw [respond_get hmethod hroute, statusResponse, hpeer]
  exact if_pos hadmitted

/-- **Who gets to see the leases.**  Take a request for them.  A peer that is not on the loopback
interface gets the same response whatever the header says, and a refusal if its address is not
private.  Who is refused gets the same response from all services, whatever their leases, vendors,
metrics and clocks are.  Everybody else gets the current leases of the store, which are those that
the actions on the store have led to: the body is a text of the document that holds their rows.  The
request and those before it leave the store as it is. -/
theorem disclosure (hmethod : r.method = .get)
    (hroute : Route.ofPath? (targetPath r.target) = some .status) :
    (∀ peer, r.peer = some peer → peer.isLoopback = false → ∀ v headers,
      respond v { r with headers } = respond v r ∧
      (peer.isPrivate = false → (respond v { r with headers }).status = 403)) ∧
    (r.IsRefused → ∀ v w, respond v r = respond w r) ∧
    (∀ peer a, r.peer = some peer → Effective peer r.headers (some a) → a.isPrivate = true →
      ∀ {σ ι : Type} (storage : ι → Storage σ) (s : ServiceRun σ)
        (before : List (Instant × ServiceAction ι)) (now : Instant),
        let found := s.performAll storage before
        let served := found.perform storage (now, .request r)
        let page := StatusPage.ofLeases found.store.store.current s.vendors now
        found.store = s.store.performAll storage (storeActions before) ∧
        served.responses =
          found.responses ++ [⟨200, some "application/json", none, statusBody page⟩] ∧
        Json.IsText page.document (Text.Utf8.encode (statusBody page)) ∧
        served.store = found.store) := by
  refine ⟨fun peer hpeer hdirect v headers => ?_, fun h => respond_refused hmethod hroute h, ?_⟩
  · have hsame := respond_direct (v := v) hmethod hroute hpeer hdirect headers
    refine ⟨hsame, fun hpublic => ?_⟩
    rw [hsame, respond_status (.inl hmethod) hroute hpeer,
      Client.ofPeer_direct fun hloopback => absurd hloopback (by simp [hdirect]),
      Client.isAdmitted, hpublic]
    rfl
  · intro peer a hpeer hjudged hprivate σ ι storage s before now found served page
    have hresponse := respond_admitted hmethod hroute hpeer hjudged hprivate (found.view now)
    have hvendors : found.vendors = s.vendors := vendors_performAll s before
    refine ⟨store_performAll s before, ?_, isText_statusBody page, rfl⟩
    show _ = found.responses ++ [⟨200, some "application/json", none,
      statusBody (.ofLeases found.store.store.current s.vendors now)⟩]
    rw [← hvendors]
    exact congrArg (fun response => found.responses ++ [response]) hresponse

theorem ofLeases_printer : StatusPage.ofLeases [printer] .empty .epoch =
    ⟨[LeaseRow.ofLease .empty .epoch printer], []⟩ := by
  have hstatic : LeaseSet.orderedStatic [printer] = [printer] := List.mergeSort_singleton printer
  have hdynamic : LeaseSet.orderedDynamic [printer] = [] := List.mergeSort_nil
  rw [StatusPage.ofLeases, hstatic, hdynamic]
  rfl

/-- A service that begins without leases is asked by 127.0.0.1 on behalf of 8.8.8.8, then gets a
lease, and then is asked on behalf of 10.0.0.5.  The first learns nothing, nor does 8.8.8.8 itself
if it says that it comes from 10.0.0.5, and the second is shown the lease as the only static one. -/
theorem disclosure_passedOn :
    let outside := passedOn [56, 46, 56, 46, 56, 46, 56]
    let inside := passedOn [49, 48, 46, 48, 46, 48, 46, 53]
    let liar := { inside with peer := some (.v4 (.ofOctets 8 8 8 8)) }
    let start : ServiceRun Memory := ⟨⟨⟨[], []⟩, ⟨none, none⟩, 0, []⟩, .empty, fun _ => .empty, []⟩
    let found := start.performAll (fun _ : Unit => memoryStorage "m")
      [(.epoch, .request outside), (.epoch, .store (.replace () [printer]))]
    let served := found.perform (fun _ : Unit => memoryStorage "m") (.epoch, .request inside)
    (∀ v, (respond v liar).status = 403) ∧
    outside.IsRefused ∧ (∀ v w, respond v outside = respond w outside) ∧
    Effective (.v4 (.ofOctets 127 0 0 1)) inside.headers (some (.v4 (.ofOctets 10 0 0 5))) ∧
    served.responses.getLast? = some ⟨200, some "application/json", none,
      statusBody (.ofLeases [printer] .empty .epoch)⟩ ∧
    Json.IsText
      (.object [("static_leases", .array [(LeaseRow.ofLease .empty .epoch printer).document]),
        ("dynamic_leases", .array [])])
      (Text.Utf8.encode (statusBody (.ofLeases [printer] .empty .epoch))) := by
  intro outside inside liar start found served
  have hnamed (value : List UInt8) (a : Address) (htext : value.all isTextByte = true)
      (hvisible : ∃ b ∈ value, isBlankByte b = false)
      (hspells : Address.ofChars? (asciiText (trimmed value)) = some a) :
      Effective (.v4 (.ofOctets 127 0 0 1)) (passedOn value).headers (some a) :=
    .forwarded rfl ⟨value, headerValue?_passedOn value, List.all_eq_true.mp htext, hvisible, rfl⟩
      (Address.ofChars?_eq_some_iff.mp hspells)
  have hinside : Effective (.v4 (.ofOctets 127 0 0 1)) inside.headers
      (some (.v4 (.ofOctets 10 0 0 5))) :=
    hnamed _ _ (by decide) ⟨49, List.mem_cons_self, rfl⟩ (by decide)
  have houtside : outside.IsRefused := by
    refine .inr ⟨_, some (.v4 (.ofOctets 8 8 8 8)), rfl, ?_, ?_⟩
    · exact hnamed _ _ (by decide) ⟨56, List.mem_cons_self, rfl⟩ (by decide)
    · rintro a ha
      cases ha
      decide
  have hliar (v : View) : (respond v liar).status = 403 :=
    ((disclosure (r := liar) rfl rfl).1 _ rfl (by decide) v liar.headers).2 (by decide)
  have hshown := (disclosure (r := inside) rfl rfl).2.2 _ _ rfl hinside (by decide)
    (fun _ : Unit => memoryStorage "m") start
    [(.epoch, .request outside), (.epoch, .store (.replace () [printer]))] .epoch
  refine ⟨hliar, houtside, ?_, hinside, ?_, ?_⟩
  · exact (disclosure (r := outside) rfl rfl).2.1 houtside
  · rw [hshown.2.1, List.getLast?_append]
    rfl
  · have htext : Json.IsText (StatusPage.ofLeases [printer] .empty .epoch).document
        (Text.Utf8.encode (statusBody (.ofLeases [printer] .empty .epoch))) := hshown.2.2.1
    rwa [ofLeases_printer] at htext ⊢

end LeaseKeeper.Http
