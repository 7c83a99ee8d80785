/-
A replacement step by step.

`Step` is one step of a replacement, and `Run` what it can come to in any number of steps; each
step may fail, and a replacement that is interrupted stays where it is.

* `Moment.content_file` — how much of the new content the fresh file holds at a moment;
* `step_progress`, `run_progress` — what a step, and so a run, keeps;
* `Replaced` — what a replacement leaves that has come past the move; `replaced_put` says that
  the tree with the file at its new place is such;
* `run_returned_iff` — the runs that return are the outcomes of `replaceWith`.

Design notes: a step does not say how its failure comes about, so that a run may fail with any
failure at any step.  That the name of the fresh file is one that nothing mentions is all that
is asked of it.
-/
import LeaseKeeper.Proofs.FileSystem.Fresh

namespace LeaseKeeper.FileSystem

inductive Moment where
  | created
  | modeSet
  /-- So many bytes of the new content have been written. -/
  | writing (count : Nat)
  | synced
  deriving DecidableEq

def Moment.file (content : List UInt8) : Moment → Node
  | .created => .file [] freshMode
  | .modeSet => .file [] fileMode
  | .writing count => .file (content.take count) fileMode
  | .synced => .file content fileMode

/-- What comes after a moment; a write may stop anywhere. -/
inductive Moment.Next (content : List UInt8) : Moment → Moment → Prop where
  | setMode : Next content .created .modeSet
  | write {count} (h : count ≤ content.length) : Next content .modeSet (.writing count)
  | writeMore {count more} (h : count + more ≤ content.length) :
      Next content (.writing count) (.writing (count + more))
  | sync : Next content (.writing content.length) .synced

inductive Stage where
  | ready
  | holding (temp : Place) (moment : Moment)
  | renamed
  | returned (result : Except IoFailure Unit)

abbrev State := Stage × FileSystem

/-- One step of a replacement of the file at `p`. -/
inductive Step (p : Path) (content : List UInt8) : State → State → Prop where
  | noDirectory {fs e} (h : fs.freshDirectory p = .error e) :
      Step p content (.ready, fs) (.returned (.error e), fs)
  | failCreate {fs directory e} (h : fs.freshDirectory p = .ok directory) :
      Step p content (.ready, fs) (.returned (.error e), fs)
  | create {fs directory name} (h : fs.freshDirectory p = .ok directory)
      (hname : name ∉ fs.mentioned p) :
      Step p content (.ready, fs) (.holding (directory ++ [name]) .created,
        fs.put (directory ++ [name]) (Moment.created.file content))
  | advance {fs temp m m'} (h : Moment.Next content m m') :
      Step p content (.holding temp m, fs) (.holding temp m', fs.put temp (m'.file content))
  | fail {fs temp m e} :
      Step p content (.holding temp m, fs) (.returned (.error e), fs.erase temp)
  | rename {fs temp target} (h : fs.renameTarget p = .ok target) :
      Step p content (.holding temp .synced, fs) (.renamed, fs.move temp target)
  /-- Whether the directory is synced or not makes no difference any more. -/
  | syncDirectory {fs} (outcome : Except IoFailure Unit) :
      Step p content (.renamed, fs) (.returned (.ok ()), fs)

/-- What a replacement in the tree `fs` can come to. -/
inductive Run (p : Path) (content : List UInt8) (fs : FileSystem) : State → Prop where
  | start : Run p content fs (.ready, fs)
  | step {s s'} (h : Run p content fs s) (hstep : Step p content s s') : Run p content fs s'

variable {fs tree : FileSystem} {p : Path} {content : List UInt8} {s s' : State}
  {mishap : Option Mishap} {target : Place} {result : Except IoFailure Unit}

/-! ### What a run keeps -/

/-- The tree after a replacement that came to the move. -/
def Moved (p : Path) (content : List UInt8) (fs tree : FileSystem) : Prop :=
  ∃ directory target, fs.freshDirectory p = .ok directory ∧ fs.renameTarget p = .ok target ∧
    tree = fs.put target (.file content fileMode)

/-- What holds at each stage of a replacement in the tree `fs`. -/
def Progress (p : Path) (content : List UInt8) (fs : FileSystem) : State → Prop
  | (.ready, tree) => tree = fs
  | (.holding temp m, tree) => ∃ directory name, fs.freshDirectory p = .ok directory ∧
      name ∉ fs.mentioned p ∧ temp = directory ++ [name] ∧ tree = fs.put temp (m.file content)
  | (.renamed, tree) => Moved p content fs tree
  | (.returned (.ok ()), tree) => Moved p content fs tree
  | (.returned (.error e), tree) => tree = fs ∧
      (fs.freshDirectory p = .error e ∨ ∃ directory, fs.freshDirectory p = .ok directory)

theorem step_progress (h : Progress p content fs s) (hstep : Step p content s s') :
    Progress p content fs s' := by
  cases hstep with
  | noDirectory hdirectory =>
    obtain rfl := h
    exact ⟨rfl, .inl hdirectory⟩
  | failCreate hdirectory =>
    obtain rfl := h
    exact ⟨rfl, .inr ⟨_, hdirectory⟩⟩
  | create hdirectory hname =>
    obtain rfl := h
    exact ⟨_, _, hdirectory, hname, rfl, rfl⟩
  | advance hnext =>
    obtain ⟨directory, name, hdirectory, hname, rfl, rfl⟩ := h
    exact ⟨directory, name, hdirectory, hname, rfl, put_put⟩
  | fail =>
    -- nothing was at the place of the fresh file, so that it goes without a trace
    obtain ⟨directory, name, hdirectory, hname, rfl, rfl⟩ := h
    exact ⟨erase_put (get?_fresh hname), .inr ⟨directory, hdirectory⟩⟩
  | rename htarget =>
    obtain ⟨directory, name, hdirectory, hname, rfl, rfl⟩ := h
    -- the move is judged with the fresh file in the tree, which makes no difference
    rw [renameTarget_put_fresh hname] at htarget
    exact ⟨directory, _, hdirectory, htarget, move_put (get?_fresh hname)⟩
  | syncDirectory outcome => exact h

theorem run_progress (h : Run p content fs s) : Progress p content fs s := by
  induction h with
  | start => rfl
  | step _ hstep ih => exact step_progress ih hstep

/-! ### The move -/

/-- The way along the path to its entry goes through the entry itself, which is a link. -/
def ViaItself (fs : FileSystem) (p : Path) : Prop :=
  ∃ target linkTarget, fs.renameTarget p = .ok target ∧
    fs.get? target = some (.link linkTarget) ∧ ¬fs.ClearOf p target

/-- The entry of a path holds a new content, and nothing else has changed. -/
structure Replaced (p : Path) (content : List UInt8) (fs tree : FileSystem) (target : Place) :
    Prop where
  isTarget : fs.renameTarget p = .ok target
  entry : tree.get? target = some (.file content fileMode)
  others : ∀ place, place ≠ target → tree.get? place = fs.get? place
  read : ¬fs.ViaItself p → tree.read p = .ok content
  read_viaItself : fs.ViaItself p → tree.read p = .error (.system .notDirectory)

theorem viaItself_iff (h : fs.renameTarget p = .ok target) :
    fs.ViaItself p ↔ ¬fs.ClearOf p target := by
  constructor
  · rintro ⟨target', linkTarget, htarget, -, hclear⟩
    cases h.symm.trans htarget
    exact hclear
  · intro hclear
    obtain ⟨⟨linkTarget, _, _, _, _, hnode, -⟩, -⟩ := (clearOf_or_through h).resolve_left hclear
    exact ⟨target, linkTarget, h, hnode, hclear⟩

theorem replaced_put (h : fs.renameTarget p = .ok target) :
    Replaced p content fs (fs.put target (.file content fileMode)) target := by
  have hread : (fs.put target (.file content fileMode)).read p =
      if fs.ClearOf p target then .ok content else .error (.system .notDirectory) :=
    read_put_renameTarget h
  refine ⟨h, get?_put_self (ne_nil_of_ending (renameTarget_eq_ok h).1), ?_, ?_, ?_⟩
  · intro place hplace
    exact get?_put_of_ne hplace
  · intro hvia
    rw [viaItself_iff h, Decidable.not_not] at hvia
    rw [hread, if_pos hvia]
  · intro hvia
    rw [viaItself_iff h] at hvia
    rw [hread, if_neg hvia]

/-- A file that has come to its place is no link, so the way does not go through it. -/
theorem not_viaItself_put (hclear : fs.ClearOf p target) :
    ¬(fs.put target (.file content fileMode)).ViaItself p := by
  rintro ⟨target', linkTarget, htarget, hlink, -⟩
  have hne := ne_nil_of_ending hclear
  obtain ⟨front, last, directory, happroach, rfl⟩ :=
    hclear.approach_put (.file content fileMode)
  have hending := happroach.ending.symm.trans (renameTarget_eq_ok htarget).1
  cases hending
  rw [get?_put_self hne] at hlink
  cases hlink

/-! ### The replacement as a whole -/

theorem prepared_put_fresh {name : String} {directory : Place} {node : Node}
    (h : name ∉ fs.mentioned p) :
    (fs.put (directory ++ [name]) node).prepared mishap p = fs.prepared mishap p := by
  rw [prepared, prepared, renameTarget_put_fresh h]

theorem replaceWith_eq (mishap : Option Mishap) (fs : FileSystem) (p : Path)
    (content : List UInt8) :
    fs.replaceWith mishap p content =
      match fs.freshDirectory p, Mishap.at? mishap .create with
      | .error e, _ => (.error e, fs)
      | .ok _, .error e => (.error e, fs)
      | .ok _, .ok () =>
        match fs.prepared mishap p with
        | .error e => (.error e, fs)
        | .ok target => (.ok (), fs.put target (.file content fileMode)) := by
  unfold replaceWith
  cases fs.freshDirectory p with
  | error e => rfl
  | ok directory =>
    cases Mishap.at? mishap .create with
    | error e => rfl
    | ok =>
      have hfresh := freshName_not_mem (fs.mentioned p)
      have hnone : fs.get? (directory ++ [freshName (fs.mentioned p)]) = none := get?_fresh hfresh
      simp only [prepared_put_fresh hfresh]
      cases fs.prepared mishap p with
      | error e => exact congrArg _ (erase_put hnone)
      | ok target => exact congrArg _ (move_put hnone)

/-- A file is replaced if its directory is there and its entry can be moved to. -/
theorem replaceWith_none {directory : Place} (hdirectory : fs.freshDirectory p = .ok directory)
    (htarget : fs.renameTarget p = .ok target) :
    fs.replaceWith none p content = (.ok (), fs.put target (.file content fileMode)) := by
  rw [replaceWith_eq, hdirectory, prepared, htarget]
  rfl

/-- If no fresh file can be created, nothing is replaced. -/
theorem replaceWith_create {directory : Place} (hdirectory : fs.freshDirectory p = .ok directory)
    (failure : IoFailure) :
    fs.replaceWith (some ⟨.create, failure⟩) p content = (.error failure, fs) := by
  rw [replaceWith_eq, hdirectory]
  rfl

/-- Nor is it if there is no directory to create one in. -/
theorem exists_replaceWith_create (fs : FileSystem) (p : Path) (content : List UInt8)
    (failure : IoFailure) :
    ∃ e, fs.replaceWith (some ⟨.create, failure⟩) p content = (.error e, fs) := by
  cases hdirectory : fs.freshDirectory p with
  | error e =>
    rw [replaceWith_eq, hdirectory]
    exact ⟨e, rfl⟩
  | ok directory => exact ⟨failure, replaceWith_create hdirectory failure⟩

theorem prepared_eq_ok (h : fs.prepared mishap p = .ok target) :
    fs.renameTarget p = .ok target := by
  simp only [prepared, bind_eq_ok] at h
  obtain ⟨-, -, -, -, -, -, place, htarget, -, -, hplace⟩ := h
  cases hplace
  exact htarget

/-- The fresh file may come as far as to be synced. -/
theorem run_synced {directory : Place} {name : String}
    (hdirectory : fs.freshDirectory p = .ok directory) (hname : name ∉ fs.mentioned p) :
    Run p content fs (.holding (directory ++ [name]) .synced,
      fs.put (directory ++ [name]) (.file content fileMode)) := by
  have hadvance {m m' : Moment} (hnext : Moment.Next content m m')
      (h : Run p content fs (.holding (directory ++ [name]) m,
        fs.put (directory ++ [name]) (m.file content))) :
      Run p content fs (.holding (directory ++ [name]) m',
        fs.put (directory ++ [name]) (m'.file content)) := by
    have hstep := h.step (.advance hnext)
    rwa [put_put] at hstep
  have hcreated : Run p content fs (.holding (directory ++ [name]) .created, _) :=
    Run.start.step (.create hdirectory hname)
  have hmodeSet := hadvance .setMode hcreated
  have hwritten := hadvance (.write (Nat.le_refl _)) hmodeSet
  exact hadvance .sync hwritten

theorem run_returned_iff :
    Run p content fs (.returned result, tree) ↔
      ∃ mishap, fs.replaceWith mishap p content = (result, tree) := by
  constructor
  · intro h
    have hprogress := run_progress h
    cases result with
    | ok =>
      obtain ⟨directory, target, hdirectory, htarget, rfl⟩ := hprogress
      exact ⟨none, replaceWith_none hdirectory htarget⟩
    | error e =>
      obtain ⟨rfl, hdirectory | ⟨directory, hdirectory⟩⟩ := hprogress
      · refine ⟨none, ?_⟩
        rw [replaceWith_eq, hdirectory]
      · -- the tree is as it was, so the failure may as well be that of the first step
        refine ⟨some ⟨.create, e⟩, ?_⟩
        rw [replaceWith_eq, hdirectory]
        rfl
  · rintro ⟨mishap, h⟩
    rw [replaceWith_eq] at h
    cases hdirectory : fs.freshDirectory p with
    | error e =>
      rw [hdirectory] at h
      cases h
      exact Run.start.step (.noDirectory hdirectory)
    | ok directory =>
      -- The fresh file is synced first, and then the run fails or moves it.
      rw [hdirectory] at h
      have hfresh := freshName_not_mem (fs.mentioned p)
      have hsynced : Run p content fs _ := run_synced hdirectory hfresh
      cases hcreate : Mishap.at? mishap .create with
      | error e =>
        rw [hcreate] at h
        cases h
        exact Run.start.step (.failCreate hdirectory)
      | ok =>
        rw [hcreate] at h
        cases hprepared : fs.prepared mishap p with
        | error e =>
          simp only [hprepared] at h
          cases h
          have hfail := hsynced.step (.fail (e := e))
          rwa [erase_put (get?_fresh hfresh)] at hfail
        | ok target =>
          simp only [hprepared] at h
          cases h
          have htarget := prepared_eq_ok hprepared
          rw [← renameTarget_put_fresh hfresh] at htarget
          have hrename := (hsynced.step (.rename htarget)).step (.syncDirectory (.ok ()))
          rwa [move_put (get?_fresh hfresh)] at hrename

theorem replaceWith_progress (h : fs.replaceWith mishap p content = (result, tree)) :
    Progress p content fs (.returned result, tree) :=
  run_progress (run_returned_iff.mpr ⟨mishap, h⟩)

end LeaseKeeper.FileSystem
