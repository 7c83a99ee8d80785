/-
Walks through directories and links.

`Leads fs links here names left there` says that all of `names` are directories or links to
them, and that along them one gets from `here` to `there`, with `left` of `links` links to spare.

* `Leads.walk_append`, `leads_of_walk` — a walk follows such a lead first, and one that goes on
  to a `.` has followed one;
* `Leads.mono` — a lead stays in a tree in which all directories and links are still there;
* `Leads.avoids_or_through` — a lead either does without an entry or goes through it, as
  through a link; then a file in its place ends the walk;
* `Leads.within` — with fewer links to spare the lead is the same, or there are too few;
* `Leads.standing` — a lead from a directory that stands in the tree ends at one;
* `walk_congr` — a walk does not see a change at names that nothing mentions.

Design notes: a lead is the part of a walk in which nothing is looked up for its own sake, so it
says nothing about the last name of a path.
-/
import LeaseKeeper.Proofs.FileSystem.Entries

namespace LeaseKeeper.FileSystem

/-- A name that is looked up in a directory. -/
structure IsPlain (name : String) : Prop where
  ne_dot : name ≠ "."
  ne_dotDot : name ≠ ".."
  size_le : name.utf8ByteSize ≤ nameLimit

instance (name : String) : Decidable (IsPlain name) :=
  decidable_of_iff (name ≠ "." ∧ name ≠ ".." ∧ name.utf8ByteSize ≤ nameLimit)
    ⟨fun ⟨hdot, hdotDot, hsize⟩ => ⟨hdot, hdotDot, hsize⟩,
      fun ⟨hdot, hdotDot, hsize⟩ => ⟨hdot, hdotDot, hsize⟩⟩

def linkStart (here : Place) (target : String) : Place :=
  if (Path.ofText target).isAbsolute then [] else here

/-- The names along which a link leads. -/
def linkSteps (target : String) : List String := (Path.ofText target).steps

inductive Leads (fs : FileSystem) : Nat → Place → List String → Nat → Place → Prop where
  | stop {left there} : Leads fs left there [] left there
  | dot {links here names left there} (h : Leads fs links here names left there) :
      Leads fs links here ("." :: names) left there
  | dotDot {links here names left there} (h : Leads fs links here.dropLast names left there) :
      Leads fs links here (".." :: names) left there
  | directory {links here name names left there mode} (hname : IsPlain name)
      (hnode : fs.get? (here ++ [name]) = some (.directory mode))
      (h : Leads fs links (here ++ [name]) names left there) :
      Leads fs links here (name :: names) left there
  | link {links here name names left there target} (hname : IsPlain name)
      (hnode : fs.get? (here ++ [name]) = some (.link target))
      (h : Leads fs links (linkStart here target) (linkSteps target ++ names) left there) :
      Leads fs (links + 1) here (name :: names) left there

variable {fs fs' : FileSystem} {follow : Bool} {links left : Nat} {here there : Place}
  {name : String} {names rest : List String}

/-! ### One step of a walk -/

theorem walk_nil : fs.walk follow links here [] = .ok ⟨here, fs.get? here⟩ := by rw [walk]

theorem walk_dot : fs.walk follow links here ("." :: names) = fs.walk follow links here names := by
  rw [walk, if_pos rfl]

theorem walk_dotDot : fs.walk follow links here (".." :: names) =
    fs.walk follow links here.dropLast names := by
  rw [walk, if_neg (by decide), if_pos rfl]

theorem walk_plain (hname : IsPlain name) :
    fs.walk follow links here (name :: names) =
      match fs.get? (here ++ [name]) with
      | none => if names = [] then .ok ⟨here ++ [name], none⟩ else .error (.system .noEntry)
      | some (.directory _) => fs.walk follow links (here ++ [name]) names
      | some (.file content mode) =>
        if names = [] then .ok ⟨here ++ [name], some (.file content mode)⟩
        else .error (.system .notDirectory)
      | some (.link target) =>
        if names = [] ∧ ¬follow then .ok ⟨here ++ [name], some (.link target)⟩
        else
          match links with
          | 0 => .error (.system .tooManyLinks)
          | links + 1 =>
            fs.walk follow links (linkStart here target) (linkSteps target ++ names) := by
  rw [walk, if_neg hname.ne_dot, if_neg hname.ne_dotDot, if_neg (Nat.not_lt.mpr hname.size_le)]
  rfl

theorem walk_directory {mode : Nat} (hname : IsPlain name)
    (hnode : fs.get? (here ++ [name]) = some (.directory mode)) :
    fs.walk follow links here (name :: names) = fs.walk follow links (here ++ [name]) names := by
  rw [walk_plain hname, hnode]

/-- A link is followed if names are left after it, or if the walk follows it anyway. -/
theorem not_and_not_follow (h : names ≠ [] ∨ follow = true) :
    ¬(names = [] ∧ ¬follow = true) := by
  rintro ⟨hnil, hnot⟩
  rcases h with hne | hfollow
  · exact hne hnil
  · exact hnot hfollow

theorem walk_link {target : String} (hname : IsPlain name)
    (hnode : fs.get? (here ++ [name]) = some (.link target)) (hnames : names ≠ [] ∨ follow = true) :
    fs.walk follow (links + 1) here (name :: names) =
      fs.walk follow links (linkStart here target) (linkSteps target ++ names) := by
  rw [walk_plain hname, hnode]
  exact if_neg (not_and_not_follow hnames)

theorem walk_noLinksLeft {target : String} (hname : IsPlain name)
    (hnode : fs.get? (here ++ [name]) = some (.link target)) (hnames : names ≠ [] ∨ follow = true) :
    fs.walk follow 0 here (name :: names) = .error (.system .tooManyLinks) := by
  rw [walk_plain hname, hnode]
  exact if_neg (not_and_not_follow hnames)

theorem walk_file {content : List UInt8} {mode : Nat} (hname : IsPlain name)
    (hnode : fs.get? (here ++ [name]) = some (.file content mode)) (hnames : names ≠ []) :
    fs.walk follow links here (name :: names) = .error (.system .notDirectory) := by
  rw [walk_plain hname, hnode]
  exact if_neg hnames

theorem walk_last_file {content : List UInt8} {mode : Nat} (hname : IsPlain name)
    (hnode : fs.get? (here ++ [name]) = some (.file content mode)) :
    fs.walk follow links here [name] = .ok ⟨here ++ [name], some (.file content mode)⟩ := by
  rw [walk_plain hname, hnode]
  exact if_pos rfl

/-- The cases of a walk, as one for each way to go on. -/
theorem walk_cases (fs : FileSystem) {motive : Nat → Place → List String → Prop}
    (nil : ∀ links here, motive links here [])
    (dot : ∀ links here names, motive links here names → motive links here ("." :: names))
    (dotDot : ∀ links here names, motive links here.dropLast names →
      motive links here (".." :: names))
    (long : ∀ links here name names, name ≠ "." → name ≠ ".." → nameLimit < name.utf8ByteSize →
      motive links here (name :: names))
    (plain : ∀ links here name names, IsPlain name →
      (∀ mode, fs.get? (here ++ [name]) = some (.directory mode) →
        motive links (here ++ [name]) names) →
      (∀ left target, links = left + 1 → fs.get? (here ++ [name]) = some (.link target) →
        motive left (linkStart here target) (linkSteps target ++ names)) →
      motive links here (name :: names))
    (links : Nat) (here : Place) (names : List String) : motive links here names := by
  -- A link may lead along more names than are left, but it uses up one of the links.
  induction links using Nat.strongRecOn generalizing here names with
  | ind links ihlinks =>
    induction names generalizing here with
    | nil => exact nil links here
    | cons name names ihnames =>
      by_cases hdot : name = "."
      · subst hdot
        exact dot links here names (ihnames here)
      by_cases hdotDot : name = ".."
      · subst hdotDot
        exact dotDot links here names (ihnames _)
      by_cases hlong : nameLimit < name.utf8ByteSize
      · exact long links here name names hdot hdotDot hlong
      refine plain links here name names ⟨hdot, hdotDot, Nat.le_of_not_lt hlong⟩ ?_ ?_
      · intro mode _
        exact ihnames _
      · intro left target hleft _
        exact ihlinks left (by omega) _ _

theorem walk_long (hdot : name ≠ ".") (hdotDot : name ≠ "..")
    (hlong : nameLimit < name.utf8ByteSize) :
    fs.walk follow links here (name :: names) = .error (.system .nameTooLong) := by
  rw [walk, if_neg hdot, if_neg hdotDot, if_pos hlong]

/-! ### Leads -/

theorem Leads.walk_append (h : Leads fs links here names left there) (hrest : rest ≠ []) :
    fs.walk follow links here (names ++ rest) = fs.walk follow left there rest := by
  have hne (front : List String) : front ++ rest ≠ [] :=
    List.append_ne_nil_of_right_ne_nil front hrest
  induction h with
  | stop => rfl
  | dot _ ih => rw [List.cons_append, walk_dot, ih]
  | dotDot _ ih => rw [List.cons_append, walk_dotDot, ih]
  | directory hname hnode _ ih => rw [List.cons_append, walk_directory hname hnode, ih]
  | link hname hnode _ ih =>
    rw [List.cons_append, walk_link hname hnode (.inl (hne _)), ← ih, List.append_assoc]

/-- A lead on its own ends at a directory, as a walk does. -/
theorem Leads.walk_eq (h : Leads fs links here names left there) :
    fs.walk true links here names = .ok ⟨there, fs.get? there⟩ := by
  induction h with
  | stop => exact walk_nil
  | dot _ ih => rw [walk_dot, ih]
  | dotDot _ ih => rw [walk_dotDot, ih]
  | directory hname hnode _ ih => rw [walk_directory hname hnode, ih]
  | link hname hnode _ ih => rw [walk_link hname hnode (.inr rfl), ih]

theorem leads_of_walk {spot : Spot} (h : fs.walk follow links here (names ++ ["."]) = .ok spot) :
    spot.node? = fs.get? spot.place ∧ ∃ left, Leads fs links here names left spot.place := by
  -- The induction is on the names together with the `.` behind them.
  generalize hwhole : names ++ ["."] = whole at h
  induction links, here, whole using walk_cases fs generalizing names with
  | nil => simp at hwhole
  | dot links here whole ih =>
    rw [walk_dot] at h
    cases names with
    | nil =>
      -- this is the `.` behind the names
      obtain rfl : whole = [] := by simpa using hwhole.symm
      rw [walk_nil] at h
      cases h
      exact ⟨rfl, links, .stop⟩
    | cons name names =>
      obtain ⟨rfl, hrest⟩ := List.cons.inj hwhole
      obtain ⟨hnode, left, hleads⟩ := ih hrest h
      exact ⟨hnode, left, .dot hleads⟩
  | dotDot links here whole ih =>
    rw [walk_dotDot] at h
    cases names with
    | nil =>
      have hdot : "." = ".." := (List.cons.inj hwhole).1
      exact absurd hdot (by decide)
    | cons name names =>
      obtain ⟨rfl, hrest⟩ := List.cons.inj hwhole
      obtain ⟨hnode, left, hleads⟩ := ih hrest h
      exact ⟨hnode, left, .dotDot hleads⟩
  | long links here name whole hdot hdotDot hlong =>
    rw [walk_long hdot hdotDot hlong] at h
    cases h
  | plain links here name whole hname ihdirectory ihlink =>
    cases names with
    | nil =>
      obtain ⟨rfl, -⟩ := List.cons.inj hwhole
      exact absurd rfl hname.ne_dot
    | cons first names =>
      rw [List.cons_append] at hwhole
      obtain ⟨rfl, rfl⟩ := List.cons.inj hwhole
      -- the name is not the last one, so what is there must lead on
      have hne : names ++ ["."] ≠ [] := by simp
      cases hnode : fs.get? (here ++ [first]) with
      | none =>
        rw [walk_plain hname, hnode] at h
        simp only [if_neg hne] at h
        cases h
      | some node =>
        cases node with
        | file content mode =>
          rw [walk_file hname hnode hne] at h
          cases h
        | directory mode =>
          rw [walk_directory hname hnode] at h
          obtain ⟨hspot, left, hleads⟩ := ihdirectory mode hnode rfl h
          exact ⟨hspot, left, .directory hname hnode hleads⟩
        | link target =>
          cases links with
          | zero =>
            rw [walk_noLinksLeft hname hnode (.inl hne)] at h
            cases h
          | succ links =>
            rw [walk_link hname hnode (.inl hne)] at h
            have hassoc := List.append_assoc (linkSteps target) names ["."]
            obtain ⟨hspot, left, hleads⟩ := ihlink links target rfl hnode hassoc h
            exact ⟨hspot, left, .link hname hnode hleads⟩

/-! ### Leads in other trees -/

theorem Leads.mono (hsame : ∀ q node, fs.get? q = some node → fs'.get? q = some node)
    (h : Leads fs links here names left there) : Leads fs' links here names left there := by
  induction h with
  | stop => exact .stop
  | dot _ ih => exact .dot ih
  | dotDot _ ih => exact .dotDot ih
  | directory hname hnode _ ih => exact .directory hname (hsame _ _ hnode) ih
  | link hname hnode _ ih => exact .link hname (hsame _ _ hnode) ih

/-- A lead either does without an entry, or it goes through it, which then is a link that leads
on; and a file in place of the entry ends each walk along the lead. -/
theorem Leads.avoids_or_through {entry : Place}
    (hentry : ∀ mode, fs.get? entry ≠ some (.directory mode))
    (h : Leads fs links here names left there) :
    Leads (fs.erase entry) links here names left there ∨
      (∃ target spare onward, fs.get? entry = some (.link target) ∧
        Leads fs spare (linkStart entry.dropLast target) (linkSteps target ++ onward) left there) ∧
      ∀ follow content mode rest, rest ≠ [] →
        (fs.put entry (.file content mode)).walk follow links here (names ++ rest) =
          .error (.system .notDirectory) := by
  have hne (front : List String) {rest : List String} (hrest : rest ≠ []) : front ++ rest ≠ [] :=
    List.append_ne_nil_of_right_ne_nil front hrest
  induction h with
  | stop => exact .inl .stop
  | dot _ ih =>
    refine ih.imp .dot fun ⟨hthrough, hends⟩ => ⟨hthrough, ?_⟩
    intro follow content mode rest hrest
    rw [List.cons_append, walk_dot, hends follow content mode rest hrest]
  | dotDot _ ih =>
    refine ih.imp .dotDot fun ⟨hthrough, hends⟩ => ⟨hthrough, ?_⟩
    intro follow content mode rest hrest
    rw [List.cons_append, walk_dotDot, hends follow content mode rest hrest]
  | @directory links here name names left there mode hname hnode _ ih =>
    have hother : here ++ [name] ≠ entry := by
      rintro rfl
      exact hentry mode hnode
    refine ih.imp (.directory hname ((get?_erase_of_ne hother).trans hnode)) ?_
    refine fun ⟨hthrough, hends⟩ => ⟨hthrough, ?_⟩
    intro follow content fileMode rest hrest
    rw [List.cons_append, walk_directory hname ((get?_put_of_ne hother).trans hnode),
      hends follow content fileMode rest hrest]
  | @link links here name names left there target hname hnode hleads ih =>
    by_cases hother : here ++ [name] = entry
    · -- the lead goes through the entry, and with a file there it ends
      subst hother
      refine .inr ⟨⟨target, links, names, hnode, ?_⟩, ?_⟩
      · rw [List.dropLast_concat]
        exact hleads
      · intro follow content mode rest hrest
        have hplace := hne here (List.cons_ne_nil name [])
        rw [List.cons_append, walk_file hname (get?_put_self hplace) (hne names hrest)]
    · -- the link is another one
      refine ih.imp (.link hname ((get?_erase_of_ne hother).trans hnode)) ?_
      refine fun ⟨hthrough, hends⟩ => ⟨hthrough, ?_⟩
      intro follow content mode rest hrest
      rw [List.cons_append,
        walk_link hname ((get?_put_of_ne hother).trans hnode) (.inl (hne names hrest)),
        ← List.append_assoc, hends follow content mode rest hrest]

/-! ### Leads with other numbers of links -/

/-- With another number of links to spare, the lead is the same or there are too few. -/
theorem Leads.within (h : Leads fs links here names left there) (allowed : Nat) :
    (∃ spare, Leads fs allowed here names spare there) ∨
      fs.walk true allowed here names = .error (.system .tooManyLinks) := by
  induction h generalizing allowed with
  | stop => exact .inl ⟨allowed, .stop⟩
  | dot _ ih =>
    rw [walk_dot]
    exact (ih allowed).imp_left fun ⟨spare, hspare⟩ => ⟨spare, .dot hspare⟩
  | dotDot _ ih =>
    rw [walk_dotDot]
    exact (ih allowed).imp_left fun ⟨spare, hspare⟩ => ⟨spare, .dotDot hspare⟩
  | directory hname hnode _ ih =>
    rw [walk_directory hname hnode]
    exact (ih allowed).imp_left fun ⟨spare, hspare⟩ => ⟨spare, .directory hname hnode hspare⟩
  | link hname hnode _ ih =>
    cases allowed with
    | zero => exact .inr (walk_noLinksLeft hname hnode (.inr rfl))
    | succ allowed =>
      rw [walk_link hname hnode (.inr rfl)]
      exact (ih allowed).imp_left fun ⟨spare, hspare⟩ => ⟨spare, .link hname hnode hspare⟩

theorem Leads.front (h : Leads fs links here (names ++ rest) left there) :
    ∃ spare midway, Leads fs links here names spare midway := by
  -- Each step of the whole lead is one of its front, until the front is used up.
  generalize hwhole : names ++ rest = whole at h
  induction h generalizing names with
  | stop =>
    obtain ⟨rfl, -⟩ := List.append_eq_nil_iff.mp hwhole
    exact ⟨_, _, .stop⟩
  | dot _ ih =>
    cases names with
    | nil => exact ⟨_, _, .stop⟩
    | cons first names =>
      obtain ⟨rfl, hrest⟩ := List.cons.inj hwhole
      obtain ⟨spare, midway, hfront⟩ := ih hrest
      exact ⟨spare, midway, .dot hfront⟩
  | dotDot _ ih =>
    cases names with
    | nil => exact ⟨_, _, .stop⟩
    | cons first names =>
      obtain ⟨rfl, hrest⟩ := List.cons.inj hwhole
      obtain ⟨spare, midway, hfront⟩ := ih hrest
      exact ⟨spare, midway, .dotDot hfront⟩
  | directory hname hnode _ ih =>
    cases names with
    | nil => exact ⟨_, _, .stop⟩
    | cons first names =>
      obtain ⟨rfl, hrest⟩ := List.cons.inj hwhole
      obtain ⟨spare, midway, hfront⟩ := ih hrest
      exact ⟨spare, midway, .directory hname hnode hfront⟩
  | @link _ _ _ whole _ _ target hname hnode _ ih =>
    cases names with
    | nil => exact ⟨_, _, .stop⟩
    | cons first names =>
      obtain ⟨rfl, rfl⟩ := List.cons.inj hwhole
      obtain ⟨spare, midway, hfront⟩ := ih (List.append_assoc _ _ _)
      exact ⟨spare, midway, .link hname hnode hfront⟩

/-! ### Leads from standing directories -/

/-- The place is that of a directory, as are all above it. -/
def Standing (fs : FileSystem) (p : Place) : Prop :=
  ∀ q, q <+: p → ∃ mode, fs.get? q = some (.directory mode)

theorem standing_nil : fs.Standing [] := by
  intro q hq
  obtain rfl := List.prefix_nil.mp hq
  exact ⟨directoryMode, get?_nil⟩

theorem Leads.standing (h : Leads fs links here names left there) (hhere : fs.Standing here) :
    fs.Standing there := by
  induction h with
  | stop => exact hhere
  | dot _ ih => exact ih hhere
  | dotDot _ ih => exact ih fun q hq => hhere q (hq.trans (List.dropLast_prefix _))
  | directory hname hnode _ ih =>
    refine ih fun q hq => ?_
    rcases List.prefix_concat_iff.mp hq with rfl | hq
    · exact ⟨_, hnode⟩
    · exact hhere q hq
  | link hname hnode _ ih =>
    refine ih ?_
    rw [linkStart]
    split
    · exact standing_nil
    · exact hhere

/-! ### Names that nothing mentions -/

theorem walk_congr (hentries : ∀ q, name ∉ q → fs'.get? q = fs.get? q)
    (hlinks : ∀ q target, fs.get? q = some (.link target) → name ∉ linkSteps target)
    (hhere : name ∉ here) (hnames : name ∉ names) :
    fs'.walk follow links here names = fs.walk follow links here names := by
  induction links, here, names using walk_cases fs with
  | nil links here => rw [walk_nil, walk_nil, hentries here hhere]
  | dot links here names ih =>
    rw [walk_dot, walk_dot, ih hhere (List.not_mem_of_not_mem_cons hnames)]
  | dotDot links here names ih =>
    have hup : name ∉ here.dropLast := fun h => hhere (List.dropLast_subset here h)
    rw [walk_dotDot, walk_dotDot, ih hup (List.not_mem_of_not_mem_cons hnames)]
  | long links here first names hdot hdotDot hlong =>
    rw [walk_long hdot hdotDot hlong, walk_long hdot hdotDot hlong]
  | plain links here first names hname ihdirectory ihlink =>
    have hrest : name ∉ names := List.not_mem_of_not_mem_cons hnames
    have hthere : name ∉ here ++ [first] := by
      intro h
      rcases List.mem_append.mp h with h | h
      · exact hhere h
      · exact hnames (List.mem_singleton.mp h ▸ List.mem_cons_self)
    -- Both walks find the same here; only a link brings in names that were not there before.
    rw [walk_plain hname, walk_plain hname, hentries _ hthere]
    cases hnode : fs.get? (here ++ [first]) with
    | none => rfl
    | some node =>
      cases node with
      | file content mode => rfl
      | directory mode => exact ihdirectory mode hnode hthere hrest
      | link target =>
        cases links with
        | zero => rfl
        | succ links =>
          have hstart : name ∉ linkStart here target := by
            rw [linkStart]
            split
            · exact List.not_mem_nil
            · exact hhere
          have hsteps : name ∉ linkSteps target ++ names := by
            intro h
            exact (List.mem_append.mp h).elim (hlinks _ _ hnode) hrest
          simp only [ihlink links target rfl hnode hstart hsteps]

end LeaseKeeper.FileSystem
