/-
Memory, disk, observers and gauge agree throughout.

* `Agreement` — what can be said of a store after any run;
* `agreement_performAll` — it holds on every storage that replaces its set as a whole or not at
  all;
* `holding`, `printer`, `laptop` — a tree with leases in the file `/d/l`, and two leases for it;
* `store_agreement` — the same, together with the case of a lease file that meets any mishaps,
  where what is durable is the content of the file.
-/
import LeaseKeeper.Proofs.LeaseFile.RoundTrip
import LeaseKeeper.Proofs.Store.Run

namespace LeaseKeeper

variable {σ ι V : Type} {storage : ι → Storage σ} {sound : σ → Prop} {durable : σ → V}
  {image : LeaseSet → V} {w : σ} {store : LeaseStore} {s : LeaseSet} {value : Nat}
  {hs : List (Instant × Happening)} {r : StoreRun σ} {how : ι}

/-- What can be said of a store after a run of which `hs` came, if it was opened with the set
`s` in the world `w` when the gauge was at `value`. -/
structure Agreement (storage : ι → Storage σ) (durable : σ → V) (image : LeaseSet → V)
    (s : LeaseSet) (w : σ) (value : Nat) (hs : List (Instant × Happening)) (r : StoreRun σ) :
    Prop extends Faithful durable image s w value hs r where
  record : ∀ before now o after, hs = before ++ (now, .registered o) :: after →
    o ∉ registered before → o ∉ registered after →
    observedBy o r.events = currentAfter s before :: installed after
  order : ∀ before o t after, r.events = before ++ .observed o t :: after →
    t = s ∨ ∃ front back, before = front ++ .persisted t :: .published t :: back
  refusal : ∀ how t e w', (storage how).persist t r.world = (.error e, w') →
    r.store.replace (storage how) t r.world = ⟨.error e, r.store, w', [.persistFailed e]⟩ ∧
    durable w' = durable r.world
  success : ∀ how t w', (storage how).persist t r.world = (.ok (), w') →
    r.store.replace (storage how) t r.world = ⟨.ok t, { r.store with current := t }, w',
      .persisted t :: .published t :: r.store.observers.map fun o => .observed o t⟩ ∧
    durable w' = image t

theorem ofStorage_eq_ok {opened : Storage σ} (h : LeaseStore.ofStorage opened w = .ok store) :
    ∃ found, opened.load w = .ok found ∧ store = ⟨found.getD [], []⟩ := by
  rw [LeaseStore.ofStorage] at h
  split at h
  · next found hload =>
    cases h
    exact ⟨found, hload, rfl⟩
  · cases h

theorem agreement_performAll (hatomic : Atomic storage sound durable image) (hsound : sound w)
    (hopen : LeaseStore.ofStorage (storage how) w = .ok store) (value : Nat)
    (actions : List (Instant × StoreAction ι)) :
    Agreement storage durable image store.current w value (outcomes storage w actions)
      (StoreRun.performAll storage ⟨store, w, value, []⟩ actions) := by
  obtain ⟨found, -, rfl⟩ := ofStorage_eq_ok hopen
  have hstart : Faithful durable image (found.getD []) w value []
      ⟨⟨found.getD [], []⟩, w, value, []⟩ := by
    refine ⟨rfl, rfl, rfl, rfl, fun _ => rfl, fun hmem => ?_⟩
    exact absurd hmem List.not_mem_nil
  obtain ⟨hfaithful, hend⟩ := faithful_performAll hatomic hstart hsound actions
  refine ⟨hfaithful, ?_, ?_, ?_, ?_⟩
  · intro before now o after hhs hbefore hafter
    rw [hfaithful.events]
    exact observedBy_of_registered hhs hbefore hafter
  · intro before o t after hevents
    rw [hfaithful.events] at hevents
    exact persisted_of_observed hevents
  · intro how t e w' hpersist
    refine ⟨?_, (hatomic.failed hend hpersist).2⟩
    rw [LeaseStore.replace, hpersist]
  · intro how t w' hpersist
    refine ⟨?_, (hatomic.persisted hend hpersist).2⟩
    rw [LeaseStore.replace, hpersist]

/-! ### The lease file `/d/l` -/

open FileSystem

/-- What is loaded from a file is what its content is decoded to. -/
theorem ofStorage_of_read {fs : FileSystem} {path : String} {content : List UInt8}
    (h : fs.read (.ofText path) = .ok content) :
    LeaseStore.ofStorage (fileStorage path) fs =
      match LeaseFile.decode content with
      | .ok s => .ok ⟨s, []⟩
      | .error e => .error (.corrupt path e) := by
  rw [LeaseStore.ofStorage, fileStorage]
  simp only [fileStorageWith, h]
  cases LeaseFile.decode content <;> rfl

section

variable {fs : FileSystem}

theorem approach_leaseFile (hdirectory : fs.get? ["d"] = some (.directory directoryMode)) :
    fs.Approach (.ofText "/d/l") ["d"] "l" ["d"] where
  check := rfl
  names := by decide
  plain := by decide
  leads := ⟨linkLimit, .directory (by decide) hdirectory .stop⟩
  isDirectory := ⟨directoryMode, hdirectory⟩

theorem freshDirectory_leaseFile (hdirectory : fs.get? ["d"] = some (.directory directoryMode)) :
    fs.freshDirectory (.ofText "/d/l") = .ok ["d"] := by
  have hpath : fs.absolute (Path.containing (.ofText "/d/l")) = .ok (.ofText "/d") := by
    rw [show Path.containing (.ofText "/d/l") = .ofText "/d" by decide]
    rfl
  have hsteps : (Path.ofText "/d").steps = ["d"] := by decide
  have hleads : fs.Leads linkLimit [] ["d"] linkLimit ["d"] :=
    .directory (by decide) hdirectory .stop
  exact freshDirectory_eq_ok hpath rfl (hsteps ▸ hleads) hdirectory (by decide)

theorem persist_leaseFile (hdirectory : fs.get? ["d"] = some (.directory directoryMode))
    (hfile : ∀ mode, fs.get? ["d", "l"] ≠ some (.directory mode)) (s : LeaseSet) :
    (fileStorageWith none "/d/l").persist s fs =
      (.ok (), fs.put ["d", "l"] (.file (LeaseFile.encode s) fileMode)) := by
  have htarget : fs.renameTarget (.ofText "/d/l") = .ok ["d", "l"] :=
    (approach_leaseFile hdirectory).renameTarget (by decide) (by decide) hfile
  simp only [fileStorageWith, replaceWith_none (freshDirectory_leaseFile hdirectory) htarget]
  rfl

end

theorem get?_empty_directory :
    (FileSystem.empty ["d"]).get? ["d"] = some (.directory directoryMode) :=
  get?_empty List.prefix_rfl

theorem get?_empty_file : (FileSystem.empty ["d"]).get? ["d", "l"] = none := by decide

theorem get?_empty_ne_directory (mode : Nat) :
    (FileSystem.empty ["d"]).get? ["d", "l"] ≠ some (.directory mode) := by
  rw [get?_empty_file]
  nofun

theorem ofStorage_empty :
    LeaseStore.ofStorage (fileStorage "/d/l") (FileSystem.empty ["d"]) = .ok ⟨[], []⟩ := by
  have hread := (approach_leaseFile get?_empty_directory).read_none (by decide) get?_empty_file
  rw [LeaseStore.ofStorage, fileStorage]
  simp only [fileStorageWith, hread]
  rfl

/-- A tree with the leases `s` in the lease file. -/
def holding (s : LeaseSet) : FileSystem :=
  (FileSystem.empty ["d"]).put ["d", "l"] (.file (LeaseFile.encode s) fileMode)

theorem persist_empty (s : LeaseSet) :
    (fileStorageWith none "/d/l").persist s (FileSystem.empty ["d"]) = (.ok (), holding s) :=
  persist_leaseFile get?_empty_directory get?_empty_ne_directory s

theorem get?_holding_directory (s : LeaseSet) :
    (holding s).get? ["d"] = some (.directory directoryMode) :=
  (get?_put_of_ne (by decide)).trans get?_empty_directory

theorem get?_holding_file (s : LeaseSet) :
    (holding s).get? ["d", "l"] = some (.file (LeaseFile.encode s) fileMode) :=
  get?_put_self (by decide)

theorem grounded_holding (s : LeaseSet) : (holding s).Grounded :=
  (grounded_empty ["d"]).put get?_empty_ne_directory _

theorem persist_holding (s t : LeaseSet) :
    (fileStorageWith none "/d/l").persist t (holding s) = (.ok (), holding t) := by
  have hfile (mode : Nat) : (holding s).get? ["d", "l"] ≠ some (.directory mode) := by
    rw [get?_holding_file]
    nofun
  have hpersist := persist_leaseFile (get?_holding_directory s) hfile t
  rwa [holding, put_put] at hpersist

/-- The leases in the file stay where they are if no fresh file can be created. -/
theorem persist_holding_create (s t : LeaseSet) (failure : IoFailure) :
    (fileStorageWith (some ⟨.create, failure⟩) "/d/l").persist t (holding s) =
      (.error (.notPersisted "/d/l" failure), holding s) := by
  have hdirectory := freshDirectory_leaseFile (get?_holding_directory s)
  simp only [fileStorageWith, replaceWith_create hdirectory failure]
  rfl

/-- A static lease. -/
def printer : Lease where
  ordinal := 1
  address := .ofOctets 192 168 42 5
  hardwareAddress := ⟨⟨2, 0, 0⟩, ⟨0, 0, 1⟩⟩
  hostname := "printer"
  hostnameOverride := ""
  expiry := none

/-- A lease for a day. -/
def laptop : Lease where
  ordinal := 2
  address := .ofOctets 192 168 42 6
  hardwareAddress := ⟨⟨2, 0, 0⟩, ⟨0, 0, 2⟩⟩
  hostname := "laptop"
  hostnameOverride := ""
  expiry := some (.ofSeconds 86400)

theorem ofStorage_holding_printer :
    LeaseStore.ofStorage (fileStorage "/d/l") (holding [printer]) = .ok ⟨[printer], []⟩ := by
  have hread : (holding [printer]).read (.ofText "/d/l") = .ok (LeaseFile.encode [printer]) :=
    (approach_leaseFile (get?_holding_directory _)).read_file (by decide) (get?_holding_file _)
  have hdecode : LeaseFile.decode (LeaseFile.encode [printer]) = .ok [printer] := by
    refine (LeaseFile.decode_encode_eq_self_iff _).mpr fun l hl t ht => ?_
    rw [List.mem_singleton.mp hl] at ht
    cases ht
  rw [ofStorage_of_read hread, hdecode]

/-! ### Every run -/

/-- Whatever storage a store is opened on, and whichever of its replacements fail: the current
set is the last one that was made durable, and each observer has seen the sets from its
registration on, each once and after it was made durable.  On a lease file, what is durable is
the text of the last set. -/
theorem store_agreement :
    (∀ {σ ι V : Type} (storage : ι → Storage σ) (sound : σ → Prop) (durable : σ → V)
      (image : LeaseSet → V), Atomic storage sound durable image →
      ∀ how w store, sound w → LeaseStore.ofStorage (storage how) w = .ok store →
      ∀ value actions, Agreement storage durable image store.current w value
        (outcomes storage w actions) (StoreRun.performAll storage ⟨store, w, value, []⟩ actions)) ∧
    ∀ path fs store, fs.Grounded → LeaseStore.ofStorage (fileStorage path) fs = .ok store →
      ∀ value actions, Agreement (fileStorageWith · path) (FileSystem.read · (.ofText path))
        (fun s => .ok (LeaseFile.encode s)) store.current fs value
        (outcomes (fileStorageWith · path) fs actions)
        (StoreRun.performAll (fileStorageWith · path) ⟨store, fs, value, []⟩ actions) := by
  constructor
  · intro σ ι V storage sound durable image hatomic how w store hsound hopen value actions
    exact agreement_performAll hatomic hsound hopen value actions
  · intro path fs store hgrounded hopen value actions
    obtain ⟨found, hload, -⟩ := ofStorage_eq_ok hopen
    have hlasting : Lasting path fs := lasting_of_load hgrounded hload
    exact agreement_performAll (fileStorage_atomic path) hlasting hopen value actions

/-- Actions on a store that holds the lease of the printer: the laptop is to take its place, which
fails, and then it is to be added. -/
def replacements {ι : Type} (failing succeeding : ι) : List (Instant × StoreAction ι) :=
  [(.epoch, .register .gauge), (.epoch, .replace failing [laptop]),
    (.epoch, .replace succeeding [printer, laptop])]

/-- These replacements in memory and in a lease file. -/
theorem store_agreement_replacements :
    (let r := StoreRun.performAll (memoryStorageWith "m")
      ⟨⟨[printer], []⟩, ⟨some [printer], none⟩, 0, []⟩ (replacements (some .storageFull) none)
     LeaseStore.ofStorage (memoryStorageWith "m" none) ⟨some [printer], none⟩ =
       .ok ⟨[printer], []⟩ ∧
     r.store.current = [printer, laptop] ∧ r.world.kept = some [printer, laptop] ∧
     observedBy .gauge r.events = [[printer], [printer, laptop]]) ∧
    (holding [printer]).Grounded ∧
    LeaseStore.ofStorage (fileStorage "/d/l") (holding [printer]) = .ok ⟨[printer], []⟩ ∧
    (let r := StoreRun.performAll (fileStorageWith · "/d/l")
      ⟨⟨[printer], []⟩, holding [printer], 0, []⟩
      (replacements (some ⟨.create, .plain .storageFull⟩) none)
     r.store.current = [printer, laptop] ∧
     r.world.read (.ofText "/d/l") = .ok (LeaseFile.encode [printer, laptop]) ∧
     observedBy .gauge r.events = [[printer], [printer, laptop]]) := by
  have hmemory := store_agreement.1 (memoryStorageWith "m") _ _ _ (memoryStorage_atomic "m") none
    ⟨some [printer], none⟩ ⟨[printer], []⟩ trivial rfl 0 (replacements (some .storageFull) none)
  have hfile := store_agreement.2 "/d/l" (holding [printer]) ⟨[printer], []⟩
    (grounded_holding _) ofStorage_holding_printer 0
    (replacements (some ⟨.create, .plain .storageFull⟩) none)
  have houtcomes : outcomes (fileStorageWith · "/d/l") (holding [printer])
      (replacements (some ⟨.create, .plain .storageFull⟩) none) =
      [(.epoch, .registered .gauge),
        (.epoch, .refused (.notPersisted "/d/l" (.plain .storageFull))),
        (.epoch, .installed [printer, laptop])] := by
    simp only [replacements, outcomes, attempt, persist_holding_create, persist_holding]
  simp only [houtcomes] at hfile
  refine ⟨⟨rfl, hmemory.current, hmemory.disk, ?_⟩, grounded_holding _,
    ofStorage_holding_printer, hfile.current, hfile.disk, ?_⟩
  · exact hmemory.record [] .epoch .gauge _ rfl List.not_mem_nil List.not_mem_nil
  · exact hfile.record [] .epoch .gauge _ rfl List.not_mem_nil List.not_mem_nil

end LeaseKeeper
