/-
The way to the entry that a path names.

`Approach fs p front last directory` says that the names `front` of a path lead to a directory,
in which `last` is to be looked up.

* `Approach.ending`, `approach_of_ending` — a path ends at an entry exactly if there is such a way;
* `ClearOf` — whether the way to an entry does without the entry itself;
* `read_put_renameTarget` — a file that takes the place of the entry is what the path leads to
  exactly if the way is clear; otherwise the file stands in the way;
* `read_of_not_clearOf` — the way is clear if the path led to a file or to nothing before.
-/
import LeaseKeeper.Proofs.FileSystem.Walk

namespace LeaseKeeper.FileSystem

variable {fs : FileSystem} {p : Path} {front : List String} {last : String}
  {directory place target : Place} {content : List UInt8} {mode : Nat}

/-- The names `front` of a path lead to a directory, in which `last` is to be looked up. -/
structure Approach (fs : FileSystem) (p : Path) (front : List String) (last : String)
    (directory : Place) : Prop where
  check : p.check = .ok ()
  names : p.names = front ++ [last]
  plain : IsPlain last
  leads : ∃ left, fs.Leads linkLimit (fs.start p) front left directory
  isDirectory : ∃ mode, fs.get? directory = some (.directory mode)

/-- The way to the entry that a path names does without the entry itself, as it would not if
the entry were a link by which the way goes. -/
def ClearOf (fs : FileSystem) (p : Path) (place : Place) : Prop :=
  (fs.erase place).ending p = .ok (.entry place)

instance : Decidable (ClearOf fs p place) :=
  decidable_of_iff (((fs.erase place).ending p).toOption = some (.entry place)) (by
    rw [ClearOf]
    cases (fs.erase place).ending p <;> simp [Except.toOption])

theorem directoryAt_eq_ok {spot : Spot} (h : directoryAt spot = .ok directory) :
    spot.place = directory ∧ ∃ mode, spot.node? = some (.directory mode) := by
  rw [directoryAt] at h
  split at h
  · next mode hnode =>
    cases h
    exact ⟨rfl, mode, hnode⟩
  · cases h
  · cases h

theorem Approach.ending (h : fs.Approach p front last directory) :
    fs.ending p = .ok (.entry (directory ++ [last])) := by
  obtain ⟨left, hleads⟩ := h.leads
  obtain ⟨mode, hmode⟩ := h.isDirectory
  have hwalk : fs.walk true linkLimit (fs.start p) (front ++ ["."]) =
      .ok ⟨directory, some (.directory mode)⟩ := by
    rw [hleads.walk_append (List.cons_ne_nil _ _), walk_dot, walk_nil, hmode]
  have hlast : p.names.getLast? = some last := by rw [h.names, List.getLast?_concat]
  have hfront : p.names.dropLast = front := by rw [h.names, List.dropLast_concat]
  rw [FileSystem.ending, h.check]
  simp only [bind, Except.bind, hlast, hfront, hwalk, directoryAt]
  rw [if_neg h.plain.ne_dot, if_neg h.plain.ne_dotDot,
    if_neg (Nat.not_lt.mpr h.plain.size_le)]
  rfl

theorem approach_of_ending (h : fs.ending p = .ok (.entry place)) :
    ∃ front last directory, fs.Approach p front last directory ∧ place = directory ++ [last] := by
  rw [FileSystem.ending, bind_eq_ok] at h
  obtain ⟨⟨⟩, hcheck, h⟩ := h
  cases hlast : p.names.getLast? with
  | none =>
    rw [hlast] at h
    cases h
  | some last =>
    obtain ⟨front, hnames⟩ := List.getLast?_eq_some_iff.mp hlast
    have hfront : p.names.dropLast = front := by rw [hnames, List.dropLast_concat]
    simp only [hlast, hfront, bind_eq_ok] at h
    obtain ⟨spot, hwalk, directory, hat, h⟩ := h
    obtain ⟨rfl, mode, hmode⟩ := directoryAt_eq_ok hat
    obtain ⟨hnode, left, hleads⟩ := leads_of_walk hwalk
    -- What is left of `ending` judges the last name, and only one that is looked up is an entry.
    by_cases hdot : last = "."
    · rw [if_pos hdot] at h
      cases h
    by_cases hdotDot : last = ".."
    · rw [if_neg hdot, if_pos hdotDot] at h
      cases h
    by_cases hlong : nameLimit < last.utf8ByteSize
    · rw [if_neg hdot, if_neg hdotDot, if_pos hlong] at h
      cases h
    rw [if_neg hdot, if_neg hdotDot, if_neg hlong] at h
    cases h
    have hplain : IsPlain last := ⟨hdot, hdotDot, Nat.le_of_not_lt hlong⟩
    exact ⟨front, last, spot.place,
      ⟨hcheck, hnames, hplain, ⟨left, hleads⟩, mode, hnode ▸ hmode⟩, rfl⟩

theorem locate_eq_walk (h : p.check = .ok ()) :
    fs.locate p = fs.walk true linkLimit (fs.start p) p.steps := by
  rw [FileSystem.locate, h]
  rfl

theorem Approach.steps (h : fs.Approach p front last directory)
    (hends : p.wantsDirectory = false) : p.steps = front ++ [last] := by
  rw [Path.steps, hends, h.names]
  rfl

theorem Approach.locate (h : fs.Approach p front last directory)
    (hends : p.wantsDirectory = false) :
    ∃ left, fs.Leads linkLimit (fs.start p) front left directory ∧
      fs.locate p = fs.walk true left directory [last] := by
  obtain ⟨left, hleads⟩ := h.leads
  refine ⟨left, hleads, ?_⟩
  rw [locate_eq_walk h.check, h.steps hends]
  exact hleads.walk_append (List.cons_ne_nil _ _)

theorem Approach.read_file (h : fs.Approach p front last directory)
    (hends : p.wantsDirectory = false)
    (hfile : fs.get? (directory ++ [last]) = some (.file content mode)) :
    fs.read p = .ok content := by
  obtain ⟨left, -, hlocate⟩ := h.locate hends
  rw [read, hlocate, walk_last_file h.plain hfile]
  rfl

theorem Approach.read_none (h : fs.Approach p front last directory)
    (hends : p.wantsDirectory = false) (hnone : fs.get? (directory ++ [last]) = none) :
    fs.read p = .error (.system .noEntry) := by
  obtain ⟨left, -, hlocate⟩ := h.locate hends
  rw [read, hlocate, walk_plain h.plain, hnone]
  rfl

theorem Approach.mono {fs' : FileSystem} (h : fs.Approach p front last directory)
    (hsame : ∀ q node, fs.get? q = some node → fs'.get? q = some node)
    (hstart : fs'.workingDirectory = fs.workingDirectory) :
    fs'.Approach p front last directory := by
  obtain ⟨left, hleads⟩ := h.leads
  obtain ⟨mode, hmode⟩ := h.isDirectory
  refine ⟨h.check, h.names, h.plain, ⟨left, ?_⟩, mode, hsame _ _ hmode⟩
  have hsameStart : fs'.start p = fs.start p := by rw [start, start, hstart]
  rw [hsameStart]
  exact hleads.mono hsame

/-! ### The place of a file that is moved to a path -/

/-- A file can be moved to an entry that is no directory. -/
theorem renameTarget_eq_ok (h : fs.renameTarget p = .ok target) :
    fs.ending p = .ok (.entry target) ∧ p.wantsDirectory = false ∧
      ∀ mode, fs.get? target ≠ some (.directory mode) := by
  rw [renameTarget] at h
  split at h
  · cases h
  rw [bind_eq_ok] at h
  obtain ⟨ending, hending, h⟩ := h
  cases ending with
  | entry place =>
    simp only at h
    split at h
    · cases h
    next hends =>
    split at h
    · cases h
    next hnode =>
    cases h
    refine ⟨hending, Bool.eq_false_iff.mpr hends, fun mode hmode => ?_⟩
    exact hnode mode hmode
  | root => cases h
  | dot => cases h
  | dotDot => cases h

theorem Approach.renameTarget (h : fs.Approach p front last directory) (hnul : p.hasNul = false)
    (hends : p.wantsDirectory = false)
    (hnode : ∀ mode, fs.get? (directory ++ [last]) ≠ some (.directory mode)) :
    fs.renameTarget p = .ok (directory ++ [last]) := by
  rw [FileSystem.renameTarget, if_neg (Bool.eq_false_iff.mp hnul), h.ending]
  simp only [bind, Except.bind, if_neg (Bool.eq_false_iff.mp hends)]
  cases hfound : fs.get? (directory ++ [last]) with
  | none => rfl
  | some node =>
    cases node with
    | directory mode => exact absurd hfound (hnode mode)
    | file content mode => rfl
    | link linkTarget => rfl

/-- The fresh file is made in the directory to which the path of the directory leads. -/
theorem freshDirectory_eq_ok {path : Path} {left : Nat}
    (hpath : fs.absolute p.containing = .ok path) (hcheck : path.check = .ok ())
    (hleads : fs.Leads linkLimit (fs.start path) path.steps left directory)
    (hdirectory : fs.get? directory = some (.directory mode))
    (hshort : path.text.utf8ByteSize + 1 + freshNameSize < Path.sizeLimit) :
    fs.freshDirectory p = .ok directory := by
  have hlocate : fs.locate path = .ok ⟨directory, some (.directory mode)⟩ := by
    rw [locate_eq_walk hcheck, hleads.walk_eq, hdirectory]
  rw [freshDirectory, hpath]
  simp only [bind, Except.bind, locateDirectory, hlocate, directoryAt]
  rw [if_neg (Nat.not_le.mpr hshort)]
  rfl

theorem ne_nil_of_ending (h : fs.ending p = .ok (.entry place)) : place ≠ [] := by
  obtain ⟨front, last, directory, -, rfl⟩ := approach_of_ending h
  exact List.append_ne_nil_of_right_ne_nil directory (List.cons_ne_nil last [])

/-- The way to an entry is clear of it, or it goes through the entry, which then is a link that
leads on; and a file in its place stands in the way. -/
theorem clearOf_or_through (h : fs.renameTarget p = .ok target) :
    fs.ClearOf p target ∨
      (∃ linkTarget spare onward left there, fs.get? target = some (.link linkTarget) ∧
        fs.Leads spare (linkStart target.dropLast linkTarget) (linkSteps linkTarget ++ onward)
          left there) ∧
      ∀ content mode, (fs.put target (.file content mode)).read p =
        .error (.system .notDirectory) := by
  obtain ⟨hending, hends, hnode⟩ := renameTarget_eq_ok h
  obtain ⟨front, last, directory, happroach, rfl⟩ := approach_of_ending hending
  obtain ⟨left, hleads⟩ := happroach.leads
  rcases hleads.avoids_or_through hnode with havoids | ⟨⟨linkTarget, spare, onward, hon⟩, hwalk⟩
  · -- the way to the directory does without the entry, and the directory is not the entry
    obtain ⟨directoryMode, hmode⟩ := happroach.isDirectory
    have hother : directory ≠ directory ++ [last] := by simp
    have herase : (fs.erase (directory ++ [last])).get? directory =
        some (.directory directoryMode) := (get?_erase_of_ne hother).trans hmode
    exact .inl (Approach.ending ⟨happroach.check, happroach.names, happroach.plain,
      ⟨left, havoids⟩, directoryMode, herase⟩)
  · refine .inr ⟨⟨linkTarget, spare, onward, left, directory, hon⟩, fun content mode => ?_⟩
    have hlocate : (fs.put (directory ++ [last]) (.file content mode)).locate p =
        .error (.system .notDirectory) := by
      rw [locate_eq_walk happroach.check, happroach.steps hends]
      exact hwalk true content mode [last] (List.cons_ne_nil _ _)
    rw [read, hlocate]
    rfl

/-- A clear way stays with anything else in place of the entry. -/
theorem ClearOf.approach_put (h : fs.ClearOf p target) (node : Node) :
    ∃ front last directory, (fs.put target node).Approach p front last directory ∧
      target = directory ++ [last] := by
  have hne := ne_nil_of_ending h
  obtain ⟨front, last, directory, happroach, rfl⟩ := approach_of_ending h
  -- Putting an entry only adds to the tree in which it has been erased.
  refine ⟨front, last, directory, happroach.mono (fun q found hq => ?_) rfl, rfl⟩
  have hother : q ≠ directory ++ [last] := by
    rintro rfl
    rw [get?_erase_self hne] at hq
    cases hq
  rw [get?_put_of_ne hother]
  rwa [get?_erase_of_ne hother] at hq

/-- What a path leads to after a file has been moved to it: that file, unless it stands in the
way to itself. -/
theorem read_put_renameTarget (h : fs.renameTarget p = .ok target) :
    (fs.put target (.file content mode)).read p =
      if fs.ClearOf p target then .ok content else .error (.system .notDirectory) := by
  by_cases hclear : fs.ClearOf p target
  · rw [if_pos hclear]
    obtain ⟨hending, hends, -⟩ := renameTarget_eq_ok h
    have hne := ne_nil_of_ending hending
    obtain ⟨front, last, directory, happroach, rfl⟩ := hclear.approach_put (.file content mode)
    exact happroach.read_file hends (get?_put_self hne)
  · rw [if_neg hclear]
    exact ((clearOf_or_through h).resolve_left hclear).2 content mode

/-- A link in the way to itself is not read as a file, nor as nothing. -/
theorem read_of_not_clearOf (hstart : fs.Standing (fs.start p)) (h : fs.renameTarget p = .ok target)
    (hclear : ¬fs.ClearOf p target) :
    fs.read p = .error (.system .isDirectory) ∨ fs.read p = .error (.system .tooManyLinks) := by
  obtain ⟨hending, hends, -⟩ := renameTarget_eq_ok h
  obtain ⟨front, last, directory, happroach, rfl⟩ := approach_of_ending hending
  obtain ⟨left, hleads, hlocate⟩ := happroach.locate hends
  have hthrough := (clearOf_or_through h).resolve_left hclear
  obtain ⟨⟨linkTarget, spare, onward, _, _, hnode, honward⟩, -⟩ := hthrough
  rw [List.dropLast_concat] at honward
  obtain ⟨_, midway, hfront⟩ := honward.front
  have hmidway : fs.Standing midway := by
    refine hfront.standing ?_
    rw [linkStart]
    split
    · exact standing_nil
    · exact hleads.standing hstart
  obtain ⟨midwayMode, hmode⟩ := hmidway midway (List.prefix_refl _)
  -- The way goes through the link, so the link leads to a directory; as the last name of the path
  -- it is followed there again, unless too few links are left for that.
  rw [read, hlocate]
  cases left with
  | zero =>
    rw [walk_noLinksLeft happroach.plain hnode (.inr rfl)]
    exact .inr rfl
  | succ left =>
    rw [walk_link happroach.plain hnode (.inr rfl), List.append_nil]
    rcases hfront.within left with ⟨_, hagain⟩ | htooMany
    · rw [hagain.walk_eq, hmode]
      exact .inl rfl
    · rw [htooMany]
      exact .inr rfl

end LeaseKeeper.FileSystem
