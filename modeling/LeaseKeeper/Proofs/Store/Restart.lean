/-
What a store finds when it is opened again.

* `ofStorage_of_read_encode` — what is loaded from the file that was written for a set;
* `restart_performAll` — after any run, the next start finds the leases of the store that ran,
  unless one of them runs out at a time that a lease file does not hold; what it finds then;
* `restart_farLease` — a lease that runs out in the year 10000 is committed, and the next start
  refuses the file.
-/
import LeaseKeeper.Proofs.LeaseFile.RoundTrip
import LeaseKeeper.Proofs.Store.Agreement
import LeaseKeeper.Proofs.Store.Interruption

namespace LeaseKeeper

open FileSystem LeaseFile

variable {fs : FileSystem} {path : String} {store : LeaseStore} {s : LeaseSet}

theorem ofStorage_of_read_encode (h : fs.read (.ofText path) = .ok (encode s)) :
    LeaseStore.ofStorage (fileStorage path) fs =
      if ∀ l ∈ s, l.IsLegible then .ok ⟨s.map Lease.recorded, []⟩
      else .error (.corrupt path (.content (.badExpiry .invalidCharacter))) := by
  rw [ofStorage_of_read h, decode_encode_eq, readBack]
  by_cases hlegible : ∀ l ∈ s, l.IsLegible
  · rw [if_pos hlegible, if_pos hlegible]
  · rw [if_neg hlegible, if_neg hlegible]
    rfl

theorem ofStorage_eq_self_iff (h : fs.read (.ofText path) = .ok (encode s)) :
    LeaseStore.ofStorage (fileStorage path) fs = .ok ⟨s, []⟩ ↔
      ∀ l ∈ s, ∀ t ∈ l.expiry, zeroTime < t.seconds ∧ t.year ≤ 9999 := by
  rw [← decode_encode_eq_self_iff, ofStorage_of_read h]
  cases decode (encode s) with
  | error e => simp
  | ok t => simp

theorem ofStorage_congr {tree : FileSystem}
    (h : tree.read (.ofText path) = fs.read (.ofText path)) :
    LeaseStore.ofStorage (fileStorage path) tree = LeaseStore.ofStorage (fileStorage path) fs := by
  have hload : (fileStorage path).load tree = (fileStorage path).load fs := load_congr h
  rw [LeaseStore.ofStorage, LeaseStore.ofStorage, hload]

/-- A start after a run, in which any replacement may have met any mishap, finds the last set
that was committed as the lease file holds it.  It finds that very set if and only if every
expiry comes after the zero time and before the year 10000, or nothing was committed at all. -/
theorem restart_performAll (hgrounded : fs.Grounded)
    (hopen : LeaseStore.ofStorage (fileStorage path) fs = .ok store) (value : Nat)
    (actions : List (Instant × StoreAction (Option Mishap))) :
    let hs := outcomes (fileStorageWith · path) fs actions
    let r := StoreRun.performAll (fileStorageWith · path) ⟨store, fs, value, []⟩ actions
    r.store.current = currentAfter store.current hs ∧
    (installed hs = [] →
      LeaseStore.ofStorage (fileStorage path) r.world = .ok ⟨r.store.current, []⟩) ∧
    (installed hs ≠ [] →
      LeaseStore.ofStorage (fileStorage path) r.world =
        if ∀ l ∈ r.store.current, l.IsLegible then .ok ⟨r.store.current.map Lease.recorded, []⟩
        else .error (.corrupt path (.content (.badExpiry .invalidCharacter)))) ∧
    (LeaseStore.ofStorage (fileStorage path) r.world = .ok ⟨r.store.current, []⟩ ↔
      installed hs = [] ∨
        ∀ l ∈ r.store.current, ∀ t ∈ l.expiry, zeroTime < t.seconds ∧ t.year ≤ 9999) := by
  intro hs r
  obtain ⟨found, hload, hstore⟩ := ofStorage_eq_ok hopen
  have hlasting : Lasting path fs := lasting_of_load hgrounded hload
  have hrun : Agreement _ _ _ _ _ _ hs r :=
    agreement_performAll (fileStorage_atomic path) hlasting hopen value actions
  -- Either nothing was written, and the file is as it was when the store was opened, or it holds
  -- the set that is current.
  have hnone (h : installed hs = []) :
      LeaseStore.ofStorage (fileStorage path) r.world = .ok ⟨r.store.current, []⟩ := by
    have hdisk := hrun.disk
    rw [h] at hdisk
    have hcurrent := hrun.current
    rw [currentAfter, h] at hcurrent
    rw [ofStorage_congr hdisk, hopen, hcurrent, hstore]
    rfl
  have hsome (h : installed hs ≠ []) :
      r.world.read (.ofText path) = .ok (encode r.store.current) := by
    have hdisk := hrun.disk
    have hcurrent := hrun.current
    cases hlast : (installed hs).getLast? with
    | none => exact absurd (List.getLast?_eq_none_iff.mp hlast) h
    | some t =>
      rw [currentAfter, hlast] at hcurrent
      rw [hlast] at hdisk
      rw [hcurrent]
      exact hdisk
  refine ⟨hrun.current, hnone, fun h => ofStorage_of_read_encode (hsome h), ?_⟩
  by_cases h : installed hs = []
  · simp only [h, hnone h, true_or]
  · rw [ofStorage_eq_self_iff (hsome h)]
    simp only [h, false_or]

/-- A lease that runs out when the year 10000 begins. -/
def farLease : Lease where
  ordinal := 1
  address := .ofOctets 10 0 0 1
  hardwareAddress := ⟨⟨2, 0, 0⟩, ⟨0, 0, 1⟩⟩
  hostname := "host"
  hostnameOverride := ""
  expiry := some (.ofSeconds 253402300800)

theorem farLease_not_isLegible : ¬farLease.IsLegible := by
  decide

/-- The lease is committed, and the next start refuses the file. -/
theorem restart_farLease :
    (FileSystem.empty ["d"]).Grounded ∧
    LeaseStore.ofStorage (fileStorage "/d/l") (FileSystem.empty ["d"]) = .ok ⟨[], []⟩ ∧
    (let r := StoreRun.performAll (fileStorageWith · "/d/l")
      ⟨⟨[], []⟩, FileSystem.empty ["d"], 0, []⟩ [(.epoch, .replace none [farLease])]
    r.store.current = [farLease] ∧
    LeaseStore.ofStorage (fileStorage "/d/l") r.world =
      .error (.corrupt "/d/l" (.content (.badExpiry .invalidCharacter)))) := by
  have hrun := restart_performAll (grounded_empty ["d"]) ofStorage_empty 0
    [(.epoch, .replace none [farLease])]
  have houtcomes : outcomes (fileStorageWith · "/d/l") (FileSystem.empty ["d"])
      [(.epoch, .replace none [farLease])] = [(.epoch, .installed [farLease])] := by
    simp only [outcomes, attempt, persist_empty]
  simp only [houtcomes] at hrun
  obtain ⟨hcurrent, -, hrestart, -⟩ := hrun
  have hrestart := hrestart (List.cons_ne_nil _ _)
  rw [hcurrent] at hrestart
  refine ⟨grounded_empty ["d"], ofStorage_empty, hcurrent, hrestart.trans (if_neg ?_)⟩
  intro h
  exact farLease_not_isLegible (h farLease List.mem_cons_self)

end LeaseKeeper
