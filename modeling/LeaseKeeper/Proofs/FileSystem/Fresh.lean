/-
Files of a fresh name.

A name that the tree and a path do not mention is one that no walk along the path looks up.

* `get?_fresh` — nothing is at a place of such a name;
* `read_put_fresh`, `renameTarget_put_fresh` — the path leads to the same with a file there.
-/
import LeaseKeeper.Proofs.FileSystem.Approach

namespace LeaseKeeper.FileSystem

variable {fs : FileSystem} {p : Path} {name : String} {node : Node} {directory place : Place}

/-! ### What is mentioned -/

theorem mem_entries_of_get? (hplace : place ≠ []) (h : fs.get? place = some node) :
    (place, node) ∈ fs.entries := by
  rw [get?, if_neg hplace, Option.map_eq_some_iff] at h
  obtain ⟨⟨q, m⟩, hfind, rfl⟩ := h
  have hq : q = place := by simpa using List.find?_some hfind
  exact hq ▸ List.mem_of_find?_eq_some hfind

theorem mem_steps (h : name ∈ p.steps) : name ∈ p.names ∨ name = "." := by
  rw [Path.steps] at h
  split at h
  · exact (List.mem_append.mp h).imp_right List.mem_singleton.mp
  · exact .inl h

theorem ne_dot_of_fresh (h : name ∉ fs.mentioned p) : name ≠ "." := by
  rintro rfl
  exact h (List.mem_cons_of_mem _ List.mem_cons_self)

theorem not_mem_names_of_fresh (h : name ∉ fs.mentioned p) : name ∉ p.names := by
  intro hmem
  refine h (List.mem_cons_of_mem _ (List.mem_cons_of_mem _ (List.mem_cons_of_mem _ ?_)))
  exact List.mem_append_left _ (List.mem_append_left _ hmem)

theorem not_mem_start_of_fresh (h : name ∉ fs.mentioned p) : name ∉ fs.start p := by
  intro hmem
  rw [start] at hmem
  split at hmem
  · cases hmem
  · refine h (List.mem_cons_of_mem _ (List.mem_cons_of_mem _ (List.mem_cons_of_mem _ ?_)))
    exact List.mem_append_left _ (List.mem_append_right _ hmem)

theorem not_mem_entry_of_fresh (h : name ∉ fs.mentioned p) (hplace : place ≠ [])
    (hnode : fs.get? place = some node) : name ∉ place ++ node.mentioned := by
  intro hmem
  refine h (List.mem_cons_of_mem _ (List.mem_cons_of_mem _ (List.mem_cons_of_mem _ ?_)))
  refine List.mem_append_right _ (List.mem_flatMap.mpr ?_)
  exact ⟨(place, node), mem_entries_of_get? hplace hnode, hmem⟩

theorem get?_fresh (h : name ∉ fs.mentioned p) : fs.get? (directory ++ [name]) = none := by
  have hplace : directory ++ [name] ≠ [] :=
    List.append_ne_nil_of_right_ne_nil directory (List.cons_ne_nil name [])
  cases hnode : fs.get? (directory ++ [name]) with
  | none => rfl
  | some node =>
    refine absurd ?_ (not_mem_entry_of_fresh h hplace hnode)
    exact List.mem_append_left _ (List.mem_append_right _ List.mem_cons_self)

/-! ### What a path leads to -/

theorem walk_put_fresh {follow : Bool} {links : Nat} {names : List String}
    (h : name ∉ fs.mentioned p) (hnames : ∀ step ∈ names, step ∈ p.names ∨ step = ".") :
    (fs.put (directory ++ [name]) node).walk follow links (fs.start p) names =
      fs.walk follow links (fs.start p) names := by
  refine walk_congr (fun q hq => ?_) (fun q linkTarget hq => ?_) (not_mem_start_of_fresh h) ?_
  · refine get?_put_of_ne ?_
    rintro rfl
    exact hq (List.mem_append_right _ List.mem_cons_self)
  · have hplace : q ≠ [] := by
      rintro rfl
      cases hq
    have hfresh := not_mem_entry_of_fresh h hplace hq
    intro hmem
    rcases mem_steps hmem with hmem | hmem
    · exact hfresh (List.mem_append_right _ hmem)
    · exact ne_dot_of_fresh h hmem
  · intro hmem
    rcases hnames name hmem with hmem | hmem
    · exact not_mem_names_of_fresh h hmem
    · exact ne_dot_of_fresh h hmem

theorem read_put_fresh (h : name ∉ fs.mentioned p) :
    (fs.put (directory ++ [name]) node).read p = fs.read p := by
  have hwalk : (fs.put (directory ++ [name]) node).walk true linkLimit (fs.start p) p.steps =
      fs.walk true linkLimit (fs.start p) p.steps :=
    walk_put_fresh h fun _ => mem_steps
  have hlocate : (fs.put (directory ++ [name]) node).locate p = fs.locate p := by
    rw [locate, locate, ← hwalk]
    rfl
  rw [read, read, hlocate]

theorem ending_put_fresh (h : name ∉ fs.mentioned p) :
    (fs.put (directory ++ [name]) node).ending p = fs.ending p := by
  have hnames : ∀ step ∈ p.names.dropLast ++ ["."], step ∈ p.names ∨ step = "." := by
    intro step hstep
    rcases List.mem_append.mp hstep with hstep | hstep
    · exact .inl (List.dropLast_subset _ hstep)
    · exact .inr (List.mem_singleton.mp hstep)
  have hwalk : (fs.put (directory ++ [name]) node).walk true linkLimit (fs.start p)
      (p.names.dropLast ++ ["."]) = fs.walk true linkLimit (fs.start p)
      (p.names.dropLast ++ ["."]) :=
    walk_put_fresh h hnames
  rw [ending, ending, ← hwalk]
  rfl

theorem ne_fresh_of_ending (h : name ∉ fs.mentioned p)
    (hending : fs.ending p = .ok (.entry place)) : place ≠ directory ++ [name] := by
  -- The last name of the path is the last one of the place.
  obtain ⟨front, last, above, happroach, rfl⟩ := approach_of_ending hending
  intro heq
  have hlast : last = name := by
    simpa using congrArg List.getLast? heq
  refine not_mem_names_of_fresh h ?_
  rw [happroach.names, hlast]
  exact List.mem_append_right _ List.mem_cons_self

theorem renameTarget_put_fresh (h : name ∉ fs.mentioned p) :
    (fs.put (directory ++ [name]) node).renameTarget p = fs.renameTarget p := by
  rw [renameTarget, renameTarget, ending_put_fresh h]
  cases hending : fs.ending p with
  | error e => rfl
  | ok ending =>
    cases ending with
    | entry place =>
      have hother : place ≠ directory ++ [name] := ne_fresh_of_ending h hending
      simp only [bind, Except.bind, get?_put_of_ne hother]
    | root => rfl
    | dot => rfl
    | dotDot => rfl

end LeaseKeeper.FileSystem
