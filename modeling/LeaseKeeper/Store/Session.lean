/-
A store in operation: with its storage, the world that it is in, and its gauge.

* `StoreSession.openStore` — opens the store anew and registers the observers again;
* `StoreSession.replace`, `StoreSession.change` — makes a set the current one, without and with
  telling the subscribers; each comes with the events on the way.
-/
import LeaseKeeper.Notification.Subscriber

namespace LeaseKeeper

structure StoreSession (σ : Type) where
  storage : Storage σ
  observers : List Observer
  subscribers : List Subscriber
  processes : ProcessTable := {}
  world : σ
  store : LeaseStore := ⟨[], []⟩
  gauge : Nat := 0

namespace StoreSession

variable {σ : Type}

/-- Opens the store at a clock that shows `now`; if that fails, everything stays as it is. -/
def openStore (now : Instant) (s : StoreSession σ) :
    Except StoreError LeaseSet × List Event × StoreSession σ :=
  match LeaseStore.ofStorage s.storage s.world with
  | .error e => (.error e, [], s)
  | .ok store =>
    let (store, events) := store.registerAll s.observers
    (.ok store.current, events, { s with store, gauge := gaugeAfter now s.gauge events })

def follow (now : Instant) (s : StoreSession σ) (o : Outcome σ) :
    Except StoreError LeaseSet × List Event × StoreSession σ :=
  (o.result, o.events,
    { s with store := o.store, world := o.world, gauge := gaugeAfter now s.gauge o.events })

def replace (now : Instant) (leases : LeaseSet) (s : StoreSession σ) :
    Except StoreError LeaseSet × List Event × StoreSession σ :=
  s.follow now (s.store.replace s.storage leases s.world)

/-- Makes a set the current one and tells the subscribers. -/
def change (now : Instant) (leases : LeaseSet) (s : StoreSession σ) :
    Except StoreError LeaseSet × List Event × StoreSession σ :=
  s.follow now (commitChange s.storage s.processes.answers s.subscribers leases s.store s.world)

end StoreSession

end LeaseKeeper
