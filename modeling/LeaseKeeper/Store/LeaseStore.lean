/-
The lease store: the current leases, kept durably and watched.

A replacement is made durable first, then becomes current, and then the observers see it in
the order of their registration.  One that cannot be made durable changes nothing.

* `LeaseStore.ofStorage` — the store on a storage, with the durable set as the current one;
* `LeaseStore.register` — adds an observer, which sees the current set at once;
* `LeaseStore.replace` — makes a set the current one;
* `Event` — what happens on the way, in the order in which it happens;
* `gaugeAfter` — the number of leases that have not run out, as the gauge observer counts it.
-/
import LeaseKeeper.Notification.SignalTarget
import LeaseKeeper.Store.Storage

namespace LeaseKeeper

/-- Who sees each set that becomes current. -/
inductive Observer where
  /-- The one that counts the leases that have not run out. -/
  | gauge
  | watcher (index : Nat)
  deriving DecidableEq

/-- What happens in a store and around it. -/
inductive Event where
  | persisted (s : LeaseSet)
  | persistFailed (e : StoreError)
  | published (s : LeaseSet)
  | observed (o : Observer) (s : LeaseSet)
  /-- A subscriber was called, and has answered. -/
  | notified (index : Nat) (answer : Except SignalError Unit)

/-- The current leases and those who watch them. -/
structure LeaseStore where
  current : LeaseSet
  observers : List Observer

/-- What an operation on a store in a world with states `σ` leads to. -/
structure Outcome (σ : Type) where
  result : Except StoreError LeaseSet
  store : LeaseStore
  world : σ
  events : List Event

namespace LeaseStore

variable {σ : Type}

/-- The store on a storage; without a durable set it is empty. -/
def ofStorage (storage : Storage σ) (world : σ) : Except StoreError LeaseStore :=
  match storage.load world with
  | .ok s => .ok ⟨s.getD [], []⟩
  | .error e => .error e

/-- Adds an observer, which sees the current set. -/
def register (store : LeaseStore) (o : Observer) : LeaseStore × List Event :=
  ({ store with observers := store.observers ++ [o] }, [.observed o store.current])

/-- Adds observers one after another. -/
def registerAll (store : LeaseStore) (os : List Observer) : LeaseStore × List Event :=
  ({ store with observers := store.observers ++ os }, os.map fun o => .observed o store.current)

def replace (storage : Storage σ) (s : LeaseSet) (store : LeaseStore) (world : σ) :
    Outcome σ :=
  match storage.persist s world with
  | (.error e, world) =>
    { result := .error e, store, world, events := [.persistFailed e] }
  | (.ok (), world) =>
    { result := .ok s
      store := { store with current := s }
      world
      events := .persisted s :: .published s :: store.observers.map fun o => .observed o s }

end LeaseStore

/-- The value of the gauge after some events, at a clock that shows `now`. -/
def gaugeAfter (now : Instant) (value : Nat) (events : List Event) : Nat :=
  events.foldl
    (fun value event =>
      match event with
      | .observed .gauge s => LeaseSet.countInForce s now
      | _ => value)
    value

end LeaseKeeper
