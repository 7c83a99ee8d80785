/-
The switches on a command line, one after another.

* `Occurrence`, `Spelled` — a switch with its value, and the arguments that give such switches;
* `ofText_cases` — what an argument can look like;
* `Spelled.unique` — arguments give the same switches to everyone who reads them.
-/
import LeaseKeeper.CommandLine.Parse

namespace LeaseKeeper.CommandLine

/-- A switch that is given, with its value if it has one. -/
structure Occurrence where
  switch : Switch
  value? : Option String
  deriving DecidableEq

/-- Whether an argument cannot be taken for a switch. -/
def IsPlain (text : String) : Prop := text = "-" ∨ text.toList.head? ≠ some '-'

instance (text : String) : Decidable (IsPlain text) :=
  inferInstanceAs (Decidable (text = "-" ∨ text.toList.head? ≠ some '-'))

/-- The argument of a name, with the value that is joined to it. -/
def dashed (name : String) : Option String → String
  | none => "--" ++ name
  | some value => "--" ++ name ++ "=" ++ value

/-- The arguments that give a switch: its name with the value that it takes, if any, or the name and
then the value in an argument of its own. -/
inductive Occurrence.Spells : Occurrence → List String → Prop
  | joined {s : Switch} {value? : Option String} : s.takesValue = value?.isSome →
    Spells ⟨s, value?⟩ [dashed s.long value?]
  | apart {s : Switch} {value : String} : s.takesValue = true → IsPlain value →
    Spells ⟨s, some value⟩ [dashed s.long none, value]

/-- The arguments that give switches one after another.  Their end may be marked. -/
inductive Spelled : List Occurrence → List String → Prop
  | nil : Spelled [] []
  | closed : Spelled [] ["--"]
  | cons {x : Occurrence} {os : List Occurrence} {front rest : List String} : x.Spells front →
    Spelled os rest → Spelled (x :: os) (front ++ rest)

variable {s : Switch} {text value name : String} {arguments front : List String} {x : Occurrence}
  {os os' : List Occurrence}

/-! ### What arguments look like -/

theorem equals_notMem_long (s : Switch) : '=' ∉ s.long.toList := by cases s <;> decide

theorem ofLong?_long (s : Switch) : Switch.ofLong? s.long = some s := by cases s <;> decide

theorem ofLong?_eq_some (h : Switch.ofLong? name = some s) : name = s.long := by
  have hfound := List.find?_some h
  exact (beq_iff_eq.1 hfound).symm

theorem ofShort?_eq_some {c : Char} (h : Switch.ofShort? c = some s) :
    s = .help ∨ s = .version := by
  rw [Switch.ofShort?] at h
  split at h
  · cases h
    exact .inl rfl
  · split at h
    · cases h
      exact .inr rfl
    · cases h

theorem ofText_joined (s : Switch) (value : String) :
    Argument.ofText (dashed s.long (some value)) = .long s.long (some value) := by
  have hclear : ∀ c ∈ s.long.toList, decide (c ≠ '=') = true := fun c hc =>
    decide_eq_true fun he => equals_notMem_long s (he ▸ hc)
  have htext : (dashed s.long (some value)).toList =
      '-' :: '-' :: (s.long.toList ++ '=' :: value.toList) := by
    simp [dashed, String.toList_append]
  have hname : (s.long.toList ++ '=' :: value.toList).takeWhile (· ≠ '=') = s.long.toList := by
    rw [List.takeWhile_append_of_pos hclear, List.takeWhile_cons_of_neg (by decide),
      List.append_nil]
  have hvalue : (s.long.toList ++ '=' :: value.toList).dropWhile (· ≠ '=') =
      '=' :: value.toList := by
    rw [List.dropWhile_append_of_pos hclear, List.dropWhile_cons_of_neg (by decide)]
  rw [Argument.ofText, htext]
  split
  · next h => simp at h
  · next h =>
    cases h
    simp only [hname, hvalue, String.ofList_toList]
  · next hc h =>
    exact (hc (List.cons.inj (List.cons.inj h).2).1.symm).elim
  · next h => exact (h _ _ rfl).elim

theorem ofText_dashed (s : Switch) (value? : Option String) :
    Argument.ofText (dashed s.long value?) = .long s.long value? := by
  cases value? with
  | none => cases s <;> decide
  | some value => exact ofText_joined s value

/-- What an argument can look like. -/
theorem ofText_cases (text : String) :
    Argument.ofText text = .dashes ∧ text = "--" ∨
      (∃ name value?, Argument.ofText text = .long name value? ∧ text = dashed name value?) ∨
      (∃ c l, Argument.ofText text = .short c ∧ text.toList = '-' :: c :: l) ∨
      Argument.ofText text = .plain text ∧ IsPlain text := by
  rw [Argument.ofText]
  split
  · next h => exact .inl ⟨rfl, String.toList_inj.1 h⟩
  · next l _ h =>
    have hparts : l.takeWhile (· ≠ '=') ++ l.dropWhile (· ≠ '=') = l :=
      List.takeWhile_append_dropWhile
    simp only
    split
    · next hend =>
      rw [hend, List.append_nil] at hparts
      refine .inr (.inl ⟨_, none, rfl, String.toList_inj.1 ?_⟩)
      rw [h, hparts]
      simp [dashed]
    · next c value hend =>
      have hequals : c = '=' := by
        have hstop := List.head?_dropWhile_not (fun c => decide (c ≠ '=')) l
        rw [hend] at hstop
        simpa using hstop
      refine .inr (.inl ⟨_, some _, rfl, String.toList_inj.1 ?_⟩)
      rw [hend, hequals] at hparts
      generalize l.takeWhile (· ≠ '=') = name at hparts
      rw [h, ← hparts]
      simp [dashed]
  · next c l _ _ h => exact .inr (.inr (.inl ⟨c, l, rfl, h⟩))
  · next h =>
    refine .inr (.inr (.inr ⟨rfl, ?_⟩))
    rw [IsPlain]
    rcases hlist : text.toList with _ | ⟨c, _ | ⟨d, l⟩⟩
    · exact .inr (by simp)
    · by_cases hc : c = '-'
      · exact .inl (String.toList_inj.1 (by rw [hlist, hc]; rfl))
      · exact .inr (by simpa using hc)
    · exact .inr fun hc => h d l (by rw [hlist, Option.some.inj hc])

theorem not_isPlain {c : Char} {l : List Char} (h : text.toList = '-' :: c :: l) :
    ¬IsPlain text := by
  rintro (rfl | hhead)
  · simp at h
  · exact hhead (by rw [h]; rfl)

theorem exists_toList_dashed (name : String) (value? : Option String) :
    ∃ l, (dashed name value?).toList = '-' :: '-' :: l := by
  cases value? <;> simp [dashed]

theorem ofText_plain (h : IsPlain text) : Argument.ofText text = .plain text := by
  obtain ⟨_, rfl⟩ | ⟨name, value?, _, rfl⟩ | ⟨_, _, _, hl⟩ | ⟨hplain, _⟩ := ofText_cases text
  · exact absurd h (by decide)
  · obtain ⟨l, hl⟩ := exists_toList_dashed name value?
    exact absurd h (not_isPlain hl)
  · exact absurd h (not_isPlain hl)
  · exact hplain

theorem eq_dashes (h : Argument.ofText text = .dashes) : text = "--" := by
  obtain ⟨_, htext⟩ | ⟨_, _, hlong, _⟩ | ⟨_, _, hshort, _⟩ | ⟨hplain, _⟩ := ofText_cases text
  · exact htext
  · cases h.symm.trans hlong
  · cases h.symm.trans hshort
  · cases h.symm.trans hplain

/-! ### One meaning -/

/-- The switch that arguments begin with, and the arguments behind it. -/
def first? : List String → Option (Occurrence × List String)
  | [] => none
  | text :: rest =>
    match Argument.ofText text with
    | .long name value? =>
      (Switch.ofLong? name).bind fun s =>
        match s.takesValue, value?, rest with
        | true, none, [] => none
        | true, none, value :: rest => some (⟨s, some value⟩, rest)
        | _, value?, rest => some (⟨s, value?⟩, rest)
    | _ => none

theorem first?_append (h : x.Spells front) (rest : List String) :
    first? (front ++ rest) = some (x, rest) := by
  cases h with
  | @joined s value? hs => cases value? <;> simp [first?, ofText_dashed, ofLong?_long, hs]
  | apart hs _ => simp [first?, ofText_dashed, ofLong?_long, hs]

/-- Arguments that give switches begin with the first of them. -/
theorem Spelled.first? (h : Spelled os arguments) :
    os = [] ∧ CommandLine.first? arguments = none ∨
      ∃ x tail rest, os = x :: tail ∧ CommandLine.first? arguments = some (x, rest) ∧
        Spelled tail rest := by
  cases h with
  | nil => exact .inl ⟨rfl, rfl⟩
  | closed => exact .inl ⟨rfl, by decide⟩
  | @cons x tail _ rest hx hrest => exact .inr ⟨x, tail, rest, rfl, first?_append hx rest, hrest⟩

/-- **Arguments give the same switches to everyone who reads them.** -/
theorem Spelled.unique (h : Spelled os arguments) (h' : Spelled os' arguments) : os = os' := by
  induction os generalizing os' arguments with
  | nil =>
    obtain ⟨_, hfirst⟩ | ⟨_, _, _, hnil, _⟩ := h.first?
    · obtain ⟨rfl, _⟩ | ⟨_, _, _, _, hfirst', _⟩ := h'.first?
      · rfl
      · cases hfirst.symm.trans hfirst'
    · cases hnil
  | cons x os ih =>
    obtain ⟨hnil, _⟩ | ⟨_, _, rest, hos, hfirst, hrest⟩ := h.first?
    · cases hnil
    · cases hos
      obtain ⟨_, hfirst'⟩ | ⟨_, _, _, rfl, hfirst', hrest'⟩ := h'.first?
      · cases hfirst.symm.trans hfirst'
      · cases hfirst.symm.trans hfirst'
        rw [ih hrest hrest']

end LeaseKeeper.CommandLine
