/-
Storages that replace what is durable as a whole, or not at all.

* `Atomic` — what is asked of a storage: after a success there is the new set, and after a
  failure there is what was there before;
* `memoryStorage_atomic`, `fileStorage_atomic` — the storages of this program are such;
* `Lasting` — what is asked of a tree for that: that no replacement of the file can end the way to
  it; `lasting_of_load` says that this is so once the leases could be loaded.

Design notes: what is durable is seen through a function of its own, since a lease file may not
read back as the leases that were written.  A storage comes as a family, whose index says what
mishap it meets.
-/
import LeaseKeeper.Proofs.FileSystem.Grounding
import LeaseKeeper.Store.Storage

namespace LeaseKeeper

/-- The storages of a family replace what is durable as a whole or not at all, as long as the
world is sound. -/
structure Atomic {σ ι V : Type} (storage : ι → Storage σ) (sound : σ → Prop) (durable : σ → V)
    (image : LeaseSet → V) : Prop where
  persisted : ∀ {how s w w'}, sound w → (storage how).persist s w = (.ok (), w') →
    sound w' ∧ durable w' = image s
  failed : ∀ {how s w w' e}, sound w → (storage how).persist s w = (.error e, w') →
    sound w' ∧ durable w' = durable w

def memoryStorageWith (path : String) (failing : Option IoKind) : Storage Memory where
  load m := (memoryStorage path).load { m with failing }
  persist s m := (memoryStorage path).persist s { m with failing }

theorem memoryStorage_atomic (path : String) :
    Atomic (memoryStorageWith path) (fun _ => True) Memory.kept some where
  persisted {how s w w'} _ h := by
    cases how with
    | none =>
      cases h
      exact ⟨trivial, rfl⟩
    | some kind => cases h
  failed {how s w w' e} _ h := by
    cases how with
    | none => cases h
    | some kind =>
      cases h
      exact ⟨trivial, rfl⟩

open FileSystem

variable {fs tree : FileSystem} {path : String} {mishap : Option Mishap} {s : LeaseSet}

/-- No replacement of the file at a path can end the way to it. -/
def Lasting (path : String) (fs : FileSystem) : Prop :=
  ∀ directory, fs.freshDirectory (.ofText path) = .ok directory → ¬fs.ViaItself (.ofText path)

/-- What is left after leases have been written to a file. -/
theorem persist_cases {result : Except StoreError Unit}
    (h : (fileStorageWith mishap path).persist s fs = (result, tree)) :
    (∃ e, result = .error (.notPersisted path e) ∧ tree = fs) ∨
      result = .ok () ∧ Moved (.ofText path) (LeaseFile.encode s) fs tree := by
  cases hreplace : fs.replaceWith mishap (.ofText path) (LeaseFile.encode s) with
  | mk outcome after =>
    have hprogress := replaceWith_progress hreplace
    simp only [fileStorageWith, hreplace] at h
    cases h
    cases outcome with
    | ok => exact .inr ⟨rfl, hprogress⟩
    | error e => exact .inl ⟨e, rfl, hprogress.1⟩

theorem fileStorage_atomic (path : String) :
    Atomic (fileStorageWith · path) (Lasting path) (FileSystem.read · (.ofText path))
      (fun s => .ok (LeaseFile.encode s)) where
  persisted {how s w w'} hw h := by
    obtain ⟨e, he, -⟩ | ⟨-, directory, target, hdirectory, htarget, rfl⟩ := persist_cases h
    · cases he
    · have hvia := hw directory hdirectory
      have hclear : w.ClearOf (.ofText path) target := by
        rwa [viaItself_iff htarget, Decidable.not_not] at hvia
      exact ⟨fun _ _ => not_viaItself_put hclear, (replaced_put htarget).read hvia⟩
  failed {how s w w' e} hw h := by
    obtain ⟨_, -, rfl⟩ | ⟨hok, -⟩ := persist_cases h
    · exact ⟨hw, rfl⟩
    · cases hok

/-- Once leases could be loaded, no replacement can end the way to their file. -/
theorem lasting_of_load (hgrounded : fs.Grounded) {found : Option LeaseSet}
    (h : (fileStorageWith mishap path).load fs = .ok found) : Lasting path fs := by
  rintro directory hdirectory ⟨target, linkTarget, htarget, -, hclear⟩
  have hstart := standing_start hgrounded hdirectory
  -- If the way to the file went through its own entry, the file could not have been read, and the
  -- failure would not have been that there is none.
  rcases read_of_not_clearOf hstart htarget hclear with hread | hread
  · simp only [fileStorageWith, hread] at h
    cases h
  · simp only [fileStorageWith, hread] at h
    cases h

end LeaseKeeper
