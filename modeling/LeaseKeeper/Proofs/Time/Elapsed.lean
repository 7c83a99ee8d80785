/-
The texts of elapsed times.

* `Elapsed.IsBreakdown`, `Elapsed.Spells` — what makes up a number of whole seconds, and its text;
* `isBreakdown_components`, `spells_toChars` — up to a day, what is written is such a text;
* `Elapsed.read?`, `read?_of_spells` — such a text is read as its number of seconds;
* `read?_eq_none` — no text with a dash is read, and so no date.
-/
import LeaseKeeper.Proofs.Text.Fields
import LeaseKeeper.Proofs.Text.Numerals
import LeaseKeeper.Time.Elapsed
import Mathlib.Algebra.BigOperators.Group.List.Basic
import Mathlib.Algebra.GroupWithZero.Nat
import Mathlib.Data.List.TakeWhile

namespace LeaseKeeper.Elapsed

/-- What the count of a unit stays below: there is at most one day. -/
def Unit.limit : Unit → Nat
  | .day => 2
  | .hour => 24
  | .minute => 60
  | .second => 60

/-- The letters of a unit after its count. -/
def Unit.symbol : Unit → List Char
  | .day => ['d', 'a', 'y']
  | .hour => ['h']
  | .minute => ['m']
  | .second => ['s']

/-- Counts of units, the largest unit first, that make up a number of seconds.  None of them is
zero, or as large as the next larger unit. -/
structure IsBreakdown (cs : List (Nat × Unit)) (seconds : Nat) : Prop where
  decreasing : cs.Pairwise fun c d => d.2.seconds < c.2.seconds
  counts : ∀ c ∈ cs, 0 < c.1 ∧ c.1 < c.2.limit
  total : (cs.map fun c => c.1 * c.2.seconds).sum = seconds

/-- The text of a count and its unit. -/
def unitText (c : Nat × Unit) : List Char := Text.decimal c.1 ++ c.2.symbol

/-- The text of a number of seconds: what makes it up between blanks, or that there is nothing. -/
inductive Spells : List Char → Nat → Prop
  | nothing : Spells ['0', 's'] 0
  | components {cs : List (Nat × Unit)} {seconds : Nat} : cs ≠ [] → IsBreakdown cs seconds →
    Spells (List.intercalate [' '] (cs.map unitText)) seconds

variable {s : List Char} {n : Nat}

/-! ### What is written -/

theorem sum_components (seconds : Nat) :
    ((components seconds).map fun c => c.1 * c.2.seconds).sum = seconds := by
  -- Counts that are zero are left out, and add nothing.
  have hleft (cs : List (Nat × Unit)) :
      ((cs.filter fun c => c.1 ≠ 0).map fun c => c.1 * c.2.seconds).sum =
        (cs.map fun c => c.1 * c.2.seconds).sum := by
    induction cs with
    | nil => rfl
    | cons c cs ih =>
      by_cases hc : c.1 = 0
      · rw [List.filter_cons_of_neg (by simpa using hc), ih, List.map_cons, List.sum_cons, hc,
          Nat.zero_mul, Nat.zero_add]
      · rw [List.filter_cons_of_pos (by simpa using hc), List.map_cons, List.map_cons,
          List.sum_cons, List.sum_cons, ih]
  rw [components, hleft]
  simp only [List.map_cons, List.map_nil, List.sum_cons, List.sum_nil, Unit.seconds]
  omega

theorem isBreakdown_components (h : n ≤ 86400) : IsBreakdown (components n) n where
  decreasing := by
    refine List.Pairwise.filter _ ?_
    simp [Unit.seconds]
  counts := by
    intro c hc
    obtain ⟨hmem, hne⟩ := List.mem_filter.mp hc
    have hpos : 0 < c.1 := Nat.pos_of_ne_zero (of_decide_eq_true hne)
    simp only [List.mem_cons, List.not_mem_nil, or_false] at hmem
    rcases hmem with rfl | rfl | rfl | rfl
    · exact ⟨hpos, show n / 86400 < 2 by omega⟩
    · exact ⟨hpos, Nat.mod_lt _ (by decide)⟩
    · exact ⟨hpos, Nat.mod_lt _ (by decide)⟩
    · exact ⟨hpos, Nat.mod_lt _ (by decide)⟩
  total := sum_components n

/-- A single day is not written in the plural. -/
theorem componentText_eq {c : Nat × Unit} (h : 0 < c.1 ∧ c.1 < c.2.limit) :
    componentText c = unitText c := by
  obtain ⟨count, unit⟩ := c
  cases unit with
  | day =>
    obtain rfl : count = 1 := Nat.le_antisymm (Nat.le_of_lt_succ h.2) h.1
    rfl
  | _ => rfl

theorem spells_toChars (h : n ≤ 86400) : Spells (toChars n) n := by
  have hbreakdown := isBreakdown_components h
  rw [toChars]
  split
  · next hzero =>
    rw [hzero]
    exact .nothing
  · next hne =>
    have htext : (components n).map componentText = (components n).map unitText :=
      List.map_congr_left fun c hc => componentText_eq (hbreakdown.counts c hc)
    rw [htext]
    refine .components (fun hnil => hne ?_) hbreakdown
    rw [← hbreakdown.total, hnil]
    rfl

/-! ### Reading -/

/-- The unit with some letters. -/
def Unit.ofSymbol? : List Char → Option Unit
  | ['d', 'a', 'y'] => some .day
  | ['h'] => some .hour
  | ['m'] => some .minute
  | ['s'] => some .second
  | _ => none

/-- The seconds that a count with its unit stands for. -/
def component? (s : List Char) : Option Nat := do
  let count ← Text.number? (s.takeWhile Char.isDigit)
  let unit ← Unit.ofSymbol? (s.dropWhile Char.isDigit)
  return count * unit.seconds

/-- The seconds that a text stands for. -/
def read? (s : List Char) : Option Nat :=
  ((Text.fields (· == ' ') s).mapM component?).map List.sum

theorem isAlpha_symbol (unit : Unit) : ∀ c ∈ unit.symbol, c.isAlpha = true :=
  List.all_eq_true.mp (by cases unit <;> rfl)

theorem eq_symbol_of_ofSymbol? {unit : Unit} (h : Unit.ofSymbol? s = some unit) :
    s = unit.symbol := by
  unfold Unit.ofSymbol? at h
  split at h <;> cases h <;> rfl

theorem component?_unitText (c : Nat × Unit) :
    component? (unitText c) = some (c.1 * c.2.seconds) := by
  obtain ⟨count, unit⟩ := c
  have hdigits : ∀ d ∈ Text.decimal count, d.isDigit = true := fun d => Text.mem_decimal_isDigit
  have hnone : unit.symbol.takeWhile Char.isDigit = [] := by cases unit <;> rfl
  have hall : unit.symbol.dropWhile Char.isDigit = unit.symbol := by cases unit <;> rfl
  have hunit : Unit.ofSymbol? unit.symbol = some unit := by cases unit <;> rfl
  rw [component?, unitText, List.takeWhile_append_of_pos hdigits,
    List.dropWhile_append_of_pos hdigits, hnone, hall, List.append_nil, Text.number?_decimal, hunit]
  rfl

theorem notMem_unitText {c : Char} (hdigit : c.isDigit = false) (halpha : c.isAlpha = false)
    (d : Nat × Unit) : c ∉ unitText d := by
  rw [unitText, List.mem_append]
  rintro (h | h)
  · rw [Text.mem_decimal_isDigit h] at hdigit
    cases hdigit
  · rw [isAlpha_symbol d.2 c h] at halpha
    cases halpha

theorem mapM_component? (cs : List (Nat × Unit)) :
    (cs.map unitText).mapM component? = some (cs.map fun c => c.1 * c.2.seconds) := by
  induction cs with
  | nil => rfl
  | cons c cs ih =>
    rw [List.map_cons, List.mapM_cons, component?_unitText, ih]
    rfl

theorem read?_of_spells (h : Spells s n) : read? s = some n := by
  cases h with
  | nothing => decide
  | @components cs n hne hbreakdown =>
    obtain ⟨c, cs, rfl⟩ := List.exists_cons_of_ne_nil hne
    have hfields : Text.fields (· == ' ') (List.intercalate [' '] ((c :: cs).map unitText)) =
        (c :: cs).map unitText := by
      refine Text.fields_intercalate rfl fun piece hpiece x hx => beq_false_of_ne ?_
      obtain ⟨d, -, rfl⟩ := List.mem_map.mp
        (show piece ∈ (c :: cs).map unitText from hpiece)
      rintro rfl
      exact notMem_unitText rfl rfl d hx
    rw [read?, hfields, mapM_component?, Option.map_some, hbreakdown.total]

/-! ### Texts that are no elapsed time -/

theorem notMem_dash_of_component? (h : component? s = some n) : '-' ∉ s := by
  simp only [component?, Option.bind_eq_bind, Option.bind_eq_some_iff] at h
  obtain ⟨count, -, unit, hunit, -⟩ := h
  rw [← List.takeWhile_append_dropWhile (p := Char.isDigit) (l := s), eq_symbol_of_ofSymbol? hunit,
    List.mem_append]
  rintro (hmem | hmem)
  · exact absurd (List.mem_takeWhile_imp hmem) (by decide)
  · exact absurd (isAlpha_symbol unit _ hmem) (by decide)

theorem read?_eq_none (h : '-' ∈ s) : read? s = none := by
  obtain ⟨piece, hpiece, hdash⟩ := Text.exists_mem_fields (p := (· == ' ')) h rfl
  rw [read?, Option.map_eq_none_iff]
  cases hread : (Text.fields (· == ' ') s).mapM component? with
  | none => rfl
  | some counts =>
    obtain ⟨n, hn⟩ := Option.ne_none_iff_exists'.mp (Text.ne_none_of_mapM hread hpiece)
    exact absurd hdash (notMem_dash_of_component? hn)

end LeaseKeeper.Elapsed
