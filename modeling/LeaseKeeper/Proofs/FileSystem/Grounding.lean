/-
Trees whose working directory is in its place.

* `Path.isAbsolute_containing` — a path that starts at the working directory is contained in one
  that does;
* `Grounded` — the working directory is in the tree, or it has been removed;
* `run_grounded` — a replacement keeps it so, wherever it is interrupted;
* `standing_start` — a path along which a file can be replaced starts at a directory that stands
  in the tree.
-/
import LeaseKeeper.Proofs.FileSystem.Replacement

namespace LeaseKeeper

namespace Path

variable {p : Path} {c : Char} {piece : List Char} {parts : List String}

/-! ### Relative paths -/

theorem parts_of_relative (h : p.isAbsolute = false) (hne : p.text.toList ≠ []) :
    ∃ c piece pieces, c ≠ '/' ∧ p.parts = String.ofList (c :: piece) :: pieces := by
  cases htext : p.text.toList with
  | nil => exact absurd htext hne
  | cons c s =>
    have hc : c ≠ '/' := by
      rintro rfl
      rw [isAbsolute, htext] at h
      cases h
    have hsep : (c == '/') = false := beq_false_of_ne hc
    -- The first piece ends at a slash, and the first character is none.
    rw [Path.parts, htext, Text.fields]
    simp only [hsep, Bool.false_eq_true, if_false]
    cases Text.fields (· == '/') s with
    | nil => exact ⟨c, [], [], hc, rfl⟩
    | cons piece pieces => exact ⟨c, piece, _, hc, rfl⟩

theorem isAbsolute_ofParts (hc : c ≠ '/') :
    (ofParts (String.ofList (c :: piece) :: parts)).isAbsolute = false := by
  have hne : String.ofList (c :: piece) :: parts ≠ [""] := by
    intro h
    have htext := congrArg String.toList (List.cons.inj h).1
    rw [String.toList_ofList] at htext
    cases htext
  have hhead : ("/".intercalate (String.ofList (c :: piece) :: parts)).toList.head? = some c := by
    cases parts with
    | nil => rw [String.intercalate_singleton, String.toList_ofList, List.head?_cons]
    | cons part parts =>
      rw [String.intercalate_cons_cons, String.toList_append, String.toList_append,
        String.toList_ofList]
      rfl
  rw [ofParts, if_neg hne, isAbsolute, hhead]
  simpa using hc

theorem trimIdle_isPrefix (parts : List String) : trimIdle parts <+: parts := by
  have h := List.reverse_prefix.mpr (List.dropWhile_suffix (l := parts.reverse) isIdle)
  rwa [List.reverse_reverse] at h

theorem isAbsolute_ofParts_front (hc : c ≠ '/') {front : List String}
    (h : front <+: String.ofList (c :: piece) :: parts) : (ofParts front).isAbsolute = false := by
  cases front with
  | nil => decide
  | cons part front =>
    obtain ⟨rest, hrest⟩ := h
    rw [List.cons_append] at hrest
    rw [(List.cons.inj hrest).1]
    exact isAbsolute_ofParts hc

theorem parent?_of_relative (h : p.isAbsolute = false) {parent : Path}
    (hparent : p.parent? = some parent) : parent.isAbsolute = false := by
  by_cases hne : p.text.toList = []
  · obtain ⟨text⟩ := p
    obtain rfl : text = "" := String.toList_eq_nil_iff.mp hne
    have hnone : (ofText "").parent? = none := by decide
    rw [hnone] at hparent
    cases hparent
  · obtain ⟨c, piece, pieces, hc, hparts⟩ := parts_of_relative h hne
    have hfirst : String.ofList (c :: piece) ≠ "" := by
      intro heq
      have htext := congrArg String.toList heq
      rw [String.toList_ofList] at htext
      cases htext
    -- The parent is made up of a prefix of the parts, since a first part that is empty, which
    -- would be set aside, is there in absolute paths only.
    rw [parent?, hparts] at hparent
    split at hparent
    next front rest hsplit =>
    have hwhole : front ++ rest = String.ofList (c :: piece) :: pieces := by
      split at hsplit
      · next heq => exact absurd (List.cons.inj heq).1 hfirst
      · next heq =>
        cases hsplit
        exact heq.symm
      · cases hsplit
        rfl
    split at hparent
    · split at hparent
      · cases hparent
        decide
      · cases hparent
    · cases hparent
      have hprefix : front ++ trimIdle (trimIdle rest).dropLast <+:
          String.ofList (c :: piece) :: pieces := by
        rw [← hwhole, List.prefix_append_right_inj]
        exact ((trimIdle_isPrefix _).trans (List.dropLast_prefix _)).trans (trimIdle_isPrefix rest)
      exact isAbsolute_ofParts_front hc hprefix

theorem isAbsolute_containing (h : p.isAbsolute = false) : p.containing.isAbsolute = false := by
  rw [containing]
  cases hparent : p.parent? with
  | none => decide
  | some parent =>
    simp only
    split
    · decide
    · exact parent?_of_relative h hparent

end Path

namespace FileSystem

variable {fs tree : FileSystem} {p : Path} {directory place : Place}

/-! ### The working directory -/

/-- The working directory is in the tree, with all directories above it, or it has been
removed. -/
def Grounded (fs : FileSystem) : Prop :=
  isDetached fs.workingDirectory = true ∨ fs.Standing fs.workingDirectory

theorem get?_empty {workingDirectory q : Place} (h : q <+: workingDirectory) :
    (FileSystem.empty workingDirectory).get? q = some (.directory directoryMode) := by
  by_cases hq : q = []
  · rw [hq, get?_nil]
  obtain ⟨rest, rfl⟩ := h
  have hpos := List.length_pos_iff.mpr hq
  have hmem : (q, Node.directory directoryMode) ∈ (FileSystem.empty (q ++ rest)).entries := by
    refine List.mem_map.mpr ⟨q.length - 1, List.mem_range.mpr ?_, ?_⟩
    · rw [List.length_append]
      omega
    · rw [Nat.sub_add_cancel hpos, List.take_left]
  rw [get?, if_neg hq]
  cases hfind : (FileSystem.empty (q ++ rest)).entries.find? fun entry => entry.1 == q with
  | none =>
    have hnone := List.find?_eq_none.mp hfind _ hmem
    exact absurd (beq_self_eq_true q) hnone
  | some entry =>
    obtain ⟨n, -, rfl⟩ := List.mem_map.mp (List.mem_of_find?_eq_some hfind)
    rfl

theorem grounded_empty (workingDirectory : Place) :
    (FileSystem.empty workingDirectory).Grounded :=
  .inr fun _ hq => ⟨directoryMode, get?_empty hq⟩

theorem Grounded.put (h : fs.Grounded) (hplace : ∀ mode, fs.get? place ≠ some (.directory mode))
    (node : Node) : (fs.put place node).Grounded := by
  rcases h with hdetached | hstanding
  · exact .inl hdetached
  · refine .inr ?_
    intro q hq
    obtain ⟨mode, hmode⟩ := hstanding q hq
    have hother : q ≠ place := by
      rintro rfl
      exact hplace mode hmode
    exact ⟨mode, (get?_put_of_ne hother).trans hmode⟩

/-- Neither the fresh file nor the one that is moved takes the place of a directory. -/
theorem run_grounded {content : List UInt8} {stage : Stage}
    (h : Run p content fs (stage, tree)) (hgrounded : fs.Grounded) : tree.Grounded := by
  have hmoved (h : Moved p content fs tree) : tree.Grounded := by
    obtain ⟨-, target, -, htarget, rfl⟩ := h
    exact hgrounded.put (renameTarget_eq_ok htarget).2.2 _
  have hprogress := run_progress h
  cases stage with
  | ready =>
    obtain rfl := hprogress
    exact hgrounded
  | holding temp m =>
    obtain ⟨directory, name, -, hname, rfl, rfl⟩ := hprogress
    have hnone : fs.get? (directory ++ [name]) = none := get?_fresh hname
    refine hgrounded.put ?_ _
    intro mode hmode
    rw [hnone] at hmode
    cases hmode
  | renamed => exact hmoved hprogress
  | returned result =>
    cases result with
    | ok => exact hmoved hprogress
    | error e =>
      obtain ⟨rfl, -⟩ := hprogress
      exact hgrounded

/-! ### Where a path starts -/

theorem standing_start (h : fs.Grounded) (hdirectory : fs.freshDirectory p = .ok directory) :
    fs.Standing (fs.start p) := by
  rw [start]
  cases hp : p.isAbsolute with
  | true => exact standing_nil
  | false =>
    -- The path of the directory is relative as well, and a relative path is made absolute only
    -- below a working directory that is still there.
    have hcontaining := Path.isAbsolute_containing hp
    rw [freshDirectory, bind_eq_ok] at hdirectory
    obtain ⟨path, habsolute, -⟩ := hdirectory
    rw [absolute, if_neg (Bool.eq_false_iff.mp hcontaining), bind_eq_ok] at habsolute
    obtain ⟨_, hopen, -⟩ := habsolute
    refine h.resolve_left fun hdetached => ?_
    rw [checkOpen, if_pos hdetached] at hopen
    cases hopen

end FileSystem

end LeaseKeeper
