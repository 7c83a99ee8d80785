/-
A daemon as the settings of its process have it.

* `Setup.Follows`, `Setup.ofSettings_follows` — a setup that does what settings say;
* `Daemon.Follows`, `Launch.follows_of_running` — and so does a daemon that has been launched.

Design notes: the path of the lease file is worked out from the settings and once more from the
setup, so that they agree is a fact about both.
-/
import LeaseKeeper.Daemon.Process
import LeaseKeeper.Proofs.Daemon.Run

namespace LeaseKeeper

/-- Whether a setup does what settings say about the leases, the processes and the addresses. -/
structure Setup.Follows (s : Setup) (o : Settings) : Prop where
  leaseFilePath : s.leaseFilePath = o.leaseFilePath
  subscribers : s.subscribers = o.processesToSignal.map fun name => .process ⟨name, .userFirst⟩
  supply : s.supply = .interfaces o.extraAddresses

/-- Whether a daemon with its files does so, where the interfaces report `reported`. -/
structure Daemon.Follows (d : Daemon) (o : Settings)
    (reported : Except SupplyFailure (List (Option Address))) (files : FileSystem) : Prop where
  leaseFilePath : d.leaseFilePath = o.leaseFilePath
  store : ∃ store, LeaseStore.ofStorage (fileStorage o.leaseFilePath) files = .ok store ∧
    d.store = (store.register .gauge).1
  subscribers : d.subscribers = o.processesToSignal.map fun name => .process ⟨name, .userFirst⟩
  upkeep : ∃ addresses, reported.map (interfaceAddresses o.extraAddresses) = .ok addresses ∧
    d.upkeep = .start addresses

variable {o : Settings} {now : Instant}
  {reported : Except SupplyFailure (List (Option Address))} {fs tree : FileSystem} {d : Daemon}

namespace Setup

theorem foldl_addProcess (names : List String) (s : Setup) :
    names.foldl addProcess s = { s with
      subscribers := s.subscribers ++ names.map fun name => .process ⟨name, .userFirst⟩ } := by
  induction names generalizing s with
  | nil => simp
  | cons name names ih => simp [ih, addProcess]

theorem ofSettings_follows (o : Settings) : (ofSettings o).Follows o := by
  rw [ofSettings, foldl_addProcess]
  exact ⟨rfl, List.nil_append _, rfl⟩

theorem Follows.of_endsOnSignal {s : Setup} (h : s.Follows o) (b : Bool) :
    { s with endsOnSignal := b }.Follows o :=
  ⟨h.leaseFilePath, h.subscribers, h.supply⟩

/-- A daemon with a setup that follows settings does so too. -/
theorem Follows.start {s : Setup} (hs : s.Follows o)
    (h : s.start now (s.supply.answer reported) fs = (.ok d, tree)) :
    d.Follows o reported tree := by
  obtain ⟨store, addresses, hstore, hsource, rfl⟩ := start_eq_ok h
  rw [hs.supply] at hsource
  rw [hs.leaseFilePath] at hstore
  exact ⟨hs.leaseFilePath, ⟨store, hstore, rfl⟩, hs.subscribers, addresses, hsource, rfl⟩

end Setup

namespace Launch

theorem follows_of_running (h : ofSettings o now reported fs = (.running d, tree)) :
    d.Follows o reported tree := by
  rw [ofSettings] at h
  split at h
  · cases h
  · simp only at h
    split at h
    · next hstart =>
      cases h
      exact ((Setup.ofSettings_follows o).of_endsOnSignal true).start hstart
    · cases h

end Launch

end LeaseKeeper
