/-
A lease file at each moment of its replacement.

* `load_congr` — what is loaded depends on what the path leads to, and on nothing else;
* `replacement_atomic` — what a replacement leaves, wherever it is interrupted or fails, and
  what it leaves when it returns;
* `replace_knot` — a path by whose entry its own way goes, so that the new file ends the way.
-/
import LeaseKeeper.Proofs.FileSystem.Replacement
import LeaseKeeper.Store.Storage

namespace LeaseKeeper

open FileSystem

variable {fs tree : FileSystem} {path : String} {mishap : Option Mishap}

theorem load_congr (h : tree.read (.ofText path) = fs.read (.ofText path)) :
    (fileStorageWith mishap path).load tree = (fileStorageWith mishap path).load fs := by
  simp only [fileStorageWith, h]

/-- Wherever a replacement is interrupted, its path leads to what it led to before or to the new
content; only if the way along the path goes through its entry, a link, does it end there once
the link is replaced.  A fresh file is found by its name only, and not by the loading of leases.
A replacement that fails leaves the tree as it was, and one that succeeds leaves the new content
in the entry and changes nothing else, whether or not the directory could be synced. -/
theorem replacement_atomic (path : String) (content : List UInt8) (fs : FileSystem) :
    (∀ stage tree, Run (.ofText path) content fs (stage, tree) →
      (tree.read (.ofText path) = fs.read (.ofText path) ∨
        tree.read (.ofText path) = .ok content ∨
        fs.ViaItself (.ofText path) ∧ tree.read (.ofText path) = .error (.system .notDirectory)) ∧
      match stage with
      | .ready => tree = fs
      | .holding temp _ =>
        tree.read (.ofText path) = fs.read (.ofText path) ∧
        (fileStorage path).load tree = (fileStorage path).load fs ∧
        fs.get? temp = none ∧ ∀ place, place ≠ temp → tree.get? place = fs.get? place
      | .renamed => ∃ target, Replaced (.ofText path) content fs tree target
      | .returned (.ok ()) => ∃ target, Replaced (.ofText path) content fs tree target
      | .returned (.error _) => tree = fs) ∧
    ∀ result tree, Run (.ofText path) content fs (.returned result, tree) ↔
      ∃ mishap, fs.replaceWith mishap (.ofText path) content = (result, tree) := by
  refine ⟨fun stage tree hrun => ?_, fun result tree => run_returned_iff⟩
  have hmoved (h : Moved (.ofText path) content fs tree) :
      ∃ target, Replaced (.ofText path) content fs tree target := by
    obtain ⟨-, target, -, htarget, rfl⟩ := h
    exact ⟨target, replaced_put htarget⟩
  have hreads {target : Place} (h : Replaced (.ofText path) content fs tree target) :
      tree.read (.ofText path) = .ok content ∨ fs.ViaItself (.ofText path) ∧
        tree.read (.ofText path) = .error (.system .notDirectory) := by
    by_cases hvia : fs.ViaItself (.ofText path)
    · exact .inr ⟨hvia, h.read_viaItself hvia⟩
    · exact .inl (h.read hvia)
  -- `Progress` has a clause for each stage, and the cases below follow them.
  have hprogress := run_progress hrun
  cases stage with
  | ready =>
    obtain rfl := hprogress
    exact ⟨.inl rfl, rfl⟩
  | holding temp m =>
    obtain ⟨directory, name, -, hname, rfl, rfl⟩ := hprogress
    have hread : (fs.put (directory ++ [name]) (m.file content)).read (.ofText path) =
        fs.read (.ofText path) := read_put_fresh hname
    exact ⟨.inl hread, hread, load_congr hread, get?_fresh hname, fun _ => get?_put_of_ne⟩
  | renamed =>
    obtain ⟨target, hreplaced⟩ := hmoved hprogress
    exact ⟨.inr (hreads hreplaced), target, hreplaced⟩
  | returned result =>
    cases result with
    | ok =>
      obtain ⟨target, hreplaced⟩ := hmoved hprogress
      exact ⟨.inr (hreads hreplaced), target, hreplaced⟩
    | error e =>
      obtain ⟨rfl, -⟩ := hprogress
      exact ⟨.inl rfl, rfl⟩

def knot : FileSystem := (FileSystem.empty ["d"]).put ["d", "l"] (.link ".")

theorem get?_knot : knot.get? ["d", "l"] = some (.link ".") := by decide

theorem plain_l : IsPlain "l" := by decide

theorem knot_approach : knot.Approach (.ofText "l/l") ["l"] "l" ["d"] where
  check := rfl
  names := by decide
  plain := plain_l
  leads := ⟨39, .link plain_l get?_knot (.dot .stop)⟩
  isDirectory := ⟨directoryMode, by decide⟩

theorem freshDirectory_knot : knot.freshDirectory (.ofText "l/l") = .ok ["d"] := by
  have hcontaining : Path.containing (.ofText "l/l") = .ofText "l" := by decide
  have hpath : knot.absolute (Path.containing (.ofText "l/l")) = .ok (.ofText "/d/l") := by
    rw [hcontaining]
    rfl
  have hsteps : (Path.ofText "/d/l").steps = ["d", "l"] := by decide
  have hdirectory : knot.get? ["d"] = some (.directory directoryMode) := by decide
  have hleads : knot.Leads linkLimit [] ["d", "l"] 39 ["d"] := by
    refine .directory (by decide) hdirectory ?_
    exact .link plain_l get?_knot (.dot .stop)
  exact freshDirectory_eq_ok hpath rfl (hsteps ▸ hleads) hdirectory (by decide)

theorem renameTarget_knot : knot.renameTarget (.ofText "l/l") = .ok ["d", "l"] := by
  refine knot_approach.renameTarget (by decide) (by decide) fun mode hmode => ?_
  rw [List.singleton_append, get?_knot] at hmode
  cases hmode

/-- Without the link there is no way to where it was. -/
theorem not_clearOf_knot : ¬knot.ClearOf (.ofText "l/l") ["d", "l"] := by
  intro hclear
  obtain ⟨front, last, directory, happroach, -⟩ := approach_of_ending hclear
  have hnames : front ++ [last] = ["l"] ++ ["l"] :=
    happroach.names.symm.trans knot_approach.names
  obtain ⟨rfl, -⟩ := List.append_inj' hnames rfl
  obtain ⟨left, hleads⟩ := happroach.leads
  have hgone : (knot.erase ["d", "l"]).get? (["d"] ++ ["l"]) = none :=
    get?_erase_self (List.cons_ne_nil _ _)
  have hwalk : (knot.erase ["d", "l"]).walk true linkLimit ["d"] (["l"] ++ ["."]) = _ :=
    hleads.walk_append (List.cons_ne_nil "." [])
  rw [List.singleton_append, walk_plain plain_l, hgone] at hwalk
  simp only [walk_dot, walk_nil] at hwalk
  cases hwalk

theorem knot_viaItself : knot.ViaItself (.ofText "l/l") :=
  ⟨["d", "l"], ".", renameTarget_knot, get?_knot, not_clearOf_knot⟩

/-- The link on which the way goes is replaced, and the way ends at the file. -/
theorem replace_knot : (knot.replace (.ofText "l/l") [1]).1 = .ok () ∧
    knot.read (.ofText "l/l") = .error (.system .isDirectory) ∧
    (knot.replace (.ofText "l/l") [1]).2.read (.ofText "l/l") = .error (.system .notDirectory) := by
  have hreplace : knot.replace (.ofText "l/l") [1] = _ :=
    replaceWith_none freshDirectory_knot renameTarget_knot
  have hreplaced : Replaced (.ofText "l/l") [1] knot _ _ := replaced_put renameTarget_knot
  have hsteps : (Path.ofText "l/l").steps = ["l", "l"] := by decide
  have hleads : knot.Leads linkLimit ["d"] ["l", "l"] 38 ["d"] := by
    refine .link plain_l get?_knot (.dot ?_)
    exact .link plain_l get?_knot (.dot .stop)
  have hlocate : knot.locate (.ofText "l/l") = .ok ⟨["d"], knot.get? ["d"]⟩ := by
    rw [locate_eq_walk rfl, hsteps]
    exact hleads.walk_eq
  rw [hreplace]
  refine ⟨rfl, ?_, hreplaced.read_viaItself knot_viaItself⟩
  rw [FileSystem.read, hlocate]
  rfl

end LeaseKeeper
