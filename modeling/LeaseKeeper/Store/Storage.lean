/-
Where a lease store keeps its leases between runs.

* `Storage` — reading and replacing a durable set, on a state `σ` of the outside world;
* `fileStorage` — a lease file in a tree of files;
* `memoryStorage` — a set that is kept as it is, and that can be told to fail;
* `StoreError` — why a durable set cannot be read or replaced.
-/
import LeaseKeeper.FileSystem.Replace
import LeaseKeeper.LeaseFile.Read

namespace LeaseKeeper

/-- Why a durable set cannot be read or replaced; every reason names the path. -/
inductive StoreError where
  | corrupt (path : String) (e : LeaseFile.Error)
  | unreadable (path : String) (e : IoFailure)
  | notPersisted (path : String) (e : IoFailure)

def StoreError.message : StoreError → String
  | .corrupt path e => "corrupt lease state in " ++ path ++ ": " ++ e.message
  | .unreadable path e => "reading lease state from " ++ path ++ ": " ++ e.message
  | .notPersisted path e => "persisting leases to " ++ path ++ ": " ++ e.message

/-- A place for a durable lease set in a world with states `σ`. -/
structure Storage (σ : Type) where
  /-- The durable set, if there is one yet. -/
  load : σ → Except StoreError (Option LeaseSet)
  persist : LeaseSet → σ → Except StoreError Unit × σ

/-- A lease file at a path, whose replacement may meet a mishap. -/
def fileStorageWith (mishap : Option Mishap) (path : String) : Storage FileSystem where
  load fs :=
    match fs.read (Path.ofText path) with
    | .ok content =>
      match LeaseFile.decode content with
      | .ok s => .ok (some s)
      | .error e => .error (.corrupt path e)
    | .error e => if e.kind = .notFound then .ok none else .error (.unreadable path e)
  persist s fs :=
    let (result, fs) := fs.replaceWith mishap (Path.ofText path) (LeaseFile.encode s)
    (result.mapError (.notPersisted path), fs)

def fileStorage (path : String) : Storage FileSystem := fileStorageWith none path

/-- A set in memory; while `failing` is set, it can neither be read nor replaced. -/
structure Memory where
  kept : Option LeaseSet
  failing : Option IoKind

/-- The storage in memory, whose place is called `path`. -/
def memoryStorage (path : String) : Storage Memory where
  load m :=
    match m.failing with
    | some kind => .error (.unreadable path (.plain kind))
    | none => .ok m.kept
  persist s m :=
    match m.failing with
    | some kind => (.error (.notPersisted path (.plain kind)), m)
    | none => (.ok (), { m with kept := some s })

end LeaseKeeper
