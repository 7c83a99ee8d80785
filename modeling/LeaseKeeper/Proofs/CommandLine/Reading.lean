/-
The reading of the switches that arguments give.

* `take_eq_ok_iff`, `next_eq_ok` — all that is behind a switch that has been judged, and all that
  one argument can do;
* `all_spelled` — arguments are read as what they give, whatever their spelling;
* `exists_spelled` — a command line that is accepted gives switches and nothing else.

Design notes: the program judges a value in an argument of its own only with the next switch, or at
the end.  So `all_spelled` speaks of the reading once what is pending has been judged, and
`Reading.opened` is the argument that a pending switch has come from if its value is still missing.
-/
import LeaseKeeper.Proofs.CommandLine.Occurrence
import LeaseKeeper.Proofs.Except

namespace LeaseKeeper.CommandLine

variable {s : Switch} {text value : String} {value? : Option String} {r r' : Reading}
  {arguments rest : List String} {os : List Occurrence}

/-! ### What is given is read -/

/-- All that is behind a switch that has been judged. -/
theorem take_eq_ok_iff : r.take s value? = .ok r' ↔
    (s.takesValue = true → value?.isSome = true) ∧ s ≠ .help ∧ s ≠ .version ∧
      (s ∈ r.given → s.isRepeatable = true) ∧
      ∃ o, s.apply (value?.getD "") r.settings = .ok o ∧
        { r with
          settings := o
          given := if r.given.contains s then r.given else r.given ++ [s] } = r' := by
  rw [Reading.take]
  simp only [guard_eq_ok]
  cases s.apply (value?.getD "") r.settings with
  | error e => simp
  | ok o => simp [Option.isSome_iff_ne_none]

theorem pending_take (h : r.take s value? = .ok r') : r'.pending = r.pending := by
  obtain ⟨_, _, _, _, o, _, rfl⟩ := take_eq_ok_iff.1 h
  rfl

theorem settle_of_settled (h : r.pending = none) : r.settle = .ok r := by
  rw [Reading.settle, h]

theorem pending_settle (h : r.settle = .ok r') : r'.pending = none := by
  rw [Reading.settle] at h
  split at h
  · next hnone =>
    cases h
    exact hnone
  · exact pending_take h

/-- Judges switches one after another. -/
def takes (r : Reading) : List Occurrence → Except Halt Reading
  | [] => .ok r
  | x :: os => do takes (← r.take x.switch x.value?) os

theorem all_cons (h : Argument.ofText text ≠ .dashes) :
    r.all (text :: rest) = r.next text >>= fun r => r.all rest := by
  rw [Reading.all.eq_def]
  exact if_neg h

theorem next_long (h : Argument.ofText text = .long s.long value?) :
    r.next text = r.switch s value? := by
  rw [Reading.next, h]
  simp only [ofLong?_long]

theorem next_plain (h : IsPlain value) (hr : r.pending = some (s, none)) :
    r.next value = .ok { r with pending := some (s, some value) } := by
  rw [Reading.next, ofText_plain h]
  simp only [hr]

theorem switch_judged (hs : s.takesValue = value?.isSome) :
    r.switch s value? = r.settle >>= fun r => r.take s value? := by
  cases value? <;> simp only [Reading.switch, hs, Option.isSome_some, Option.isSome_none]

theorem switch_opened (hs : s.takesValue = true) :
    r.switch s none = r.settle >>= fun r => .ok { r with pending := some (s, none) } := by
  simp only [Reading.switch, hs]
  rfl

/-- **Arguments are read as what they give.** -/
theorem all_spelled (h : Spelled os arguments) (r : Reading) :
    r.all arguments = r.settle >>= fun r => takes r os := by
  induction h generalizing r with
  | nil => exact (bind_pure r.settle).symm
  | closed => exact (bind_pure r.settle).symm
  | @cons x os front rest hx hrest ih =>
    cases hx with
    | @joined s value? hs =>
      rw [List.singleton_append, all_cons (by rw [ofText_dashed]; exact nofun),
        next_long (ofText_dashed s value?), switch_judged hs]
      simp only [ih, bind_assoc]
      refine bind_congr_ok fun r₁ hr₁ => bind_congr_ok fun r₂ hr₂ => ?_
      -- once a switch has been judged, nothing is pending
      rw [settle_of_settled ((pending_take hr₂).trans (pending_settle hr₁))]
      rfl
    | @apart s value hs hplain =>
      rw [List.cons_append, List.singleton_append, all_cons (by rw [ofText_dashed]; exact nofun),
        next_long (ofText_dashed s none), switch_opened hs, bind_assoc]
      refine bind_congr_ok fun r₁ hr₁ => ?_
      have hsettle : ({ r₁ with pending := some (s, some value) } : Reading).settle =
          r₁.take s (some value) := by
        rw [Reading.settle]
        simp only [← pending_settle hr₁]
      show Reading.all { r₁ with pending := some (s, none) } (value :: rest) = _
      rw [all_cons (by rw [ofText_plain hplain]; exact nofun), next_plain hplain rfl]
      show Reading.all { r₁ with pending := some (s, some value) } rest = _
      rw [ih, hsettle]
      rfl

/-! ### Nothing but switches is accepted -/

/-- The argument that a pending switch has come from, if its value is still missing. -/
def Reading.opened (r : Reading) : List String :=
  match r.pending with
  | some (s, none) => [dashed s.long none]
  | _ => []

/-- Whether a switch whose value is missing takes one. -/
def Reading.AwaitsValue (r : Reading) : Prop :=
  ∀ s, r.pending = some (s, none) → s.takesValue = true

theorem opened_of_settled (h : r.pending = none) : r.opened = [] := by
  rw [Reading.opened, h]

theorem awaitsValue_of_settled (h : r.pending = none) : r.AwaitsValue := by
  intro s hs
  cases h.symm.trans hs

theorem opened_of_settle (hr : r.AwaitsValue) (h : r.settle = .ok r') : r.opened = [] := by
  rw [Reading.opened]
  split
  · next s hs =>
    rw [Reading.settle, hs] at h
    obtain ⟨hvalue, _⟩ := take_eq_ok_iff.1 h
    cases hvalue (hr s hs)
  · rfl

/-- What a switch can do: it waits for its value, or it is judged. -/
theorem switch_eq_ok (hr : r.AwaitsValue) (h : r.switch s value? = .ok r') :
    r.opened = [] ∧
      (s.takesValue = true ∧ value? = none ∧ r'.pending = some (s, none) ∨
        s.takesValue = value?.isSome ∧ s ≠ .help ∧ s ≠ .version ∧ r'.pending = none) := by
  by_cases hs : s.takesValue = value?.isSome
  · rw [switch_judged hs] at h
    obtain ⟨r₁, hsettle, htake⟩ := bind_eq_ok.1 h
    obtain ⟨_, hhelp, hversion, _⟩ := take_eq_ok_iff.1 htake
    exact ⟨opened_of_settle hr hsettle,
      .inr ⟨hs, hhelp, hversion, (pending_take htake).trans (pending_settle hsettle)⟩⟩
  · cases value? with
    | none =>
      have hs : s.takesValue = true := Bool.not_eq_false _ ▸ hs
      rw [switch_opened hs] at h
      obtain ⟨r₁, hsettle, hpending⟩ := bind_eq_ok.1 h
      cases hpending
      exact ⟨opened_of_settle hr hsettle, .inl ⟨hs, rfl, rfl⟩⟩
    | some value =>
      have hs : s.takesValue = false := Bool.not_eq_true _ ▸ hs
      simp only [Reading.switch, hs] at h
      cases h

/-- **What one argument can do.**  It opens a switch that takes a value, or it ends one. -/
theorem next_eq_ok (hr : r.AwaitsValue) (h : r.next text = .ok r')
    (hend : Argument.ofText text ≠ .dashes) :
    r'.AwaitsValue ∧
      (r.opened = [] ∧ r'.opened = [text] ∨
        r'.opened = [] ∧ ∃ x : Occurrence, x.Spells (r.opened ++ [text])) := by
  rw [Reading.next] at h
  obtain ⟨hdashes, _⟩ | ⟨name, value?, hlong, rfl⟩ | ⟨c, _, hshort, _⟩ | ⟨hplain, hvalue⟩ :=
    ofText_cases text
  · exact absurd hdashes hend
  · simp only [hlong] at h
    split at h
    · next s hs =>
      obtain rfl := ofLong?_eq_some hs
      obtain ⟨hopened, ⟨hs, rfl, hpending⟩ | ⟨hs, _, _, hpending⟩⟩ := switch_eq_ok hr h
      · refine ⟨fun t ht => ?_, .inl ⟨hopened, by rw [Reading.opened, hpending]⟩⟩
        cases hpending.symm.trans ht
        exact hs
      · refine ⟨awaitsValue_of_settled hpending,
          .inr ⟨opened_of_settled hpending, ⟨s, value?⟩, ?_⟩⟩
        rw [hopened]
        exact .joined hs
    · cases h
  · simp only [hshort] at h
    split at h
    · next s hs =>
      -- the letters stand for switches that end the reading
      obtain ⟨_, ⟨hvalue, _⟩ | ⟨_, hhelp, hversion, _⟩⟩ := switch_eq_ok hr h
      · obtain rfl | rfl := ofShort?_eq_some hs <;> cases hvalue
      · exact absurd (ofShort?_eq_some hs) (not_or.2 ⟨hhelp, hversion⟩)
    · cases h
  · simp only [hplain] at h
    split at h
    · next s hs =>
      cases h
      refine ⟨fun t ht => ?_, .inr ⟨rfl, ⟨s, some text⟩, ?_⟩⟩
      · cases ht
      · rw [Reading.opened, hs]
        exact .apart (hr s hs) hvalue
    · cases h

theorem exists_spelled_opened (hr : r.AwaitsValue) (h : r.all arguments = .ok r') :
    ∃ os, Spelled os (r.opened ++ arguments) := by
  induction arguments generalizing r with
  | nil =>
    rw [opened_of_settle hr h]
    exact ⟨[], .nil⟩
  | cons text rest ih =>
    by_cases hend : Argument.ofText text = .dashes
    · rw [Reading.all.eq_def] at h
      simp only [hend, if_true] at h
      split at h
      · rw [opened_of_settle hr h, eq_dashes hend]
        exact ⟨[], .closed⟩
      · cases h
    · rw [all_cons hend] at h
      obtain ⟨r₁, hnext, hrest⟩ := bind_eq_ok.1 h
      obtain ⟨hr₁, ⟨hopened, hopened₁⟩ | ⟨hopened₁, x, hx⟩⟩ := next_eq_ok hr hnext hend
      · obtain ⟨os, hos⟩ := ih hr₁ hrest
        rw [hopened₁] at hos
        rw [hopened]
        exact ⟨os, hos⟩
      · obtain ⟨os, hos⟩ := ih hr₁ hrest
        rw [hopened₁] at hos
        rw [List.append_cons]
        exact ⟨x :: os, .cons hx hos⟩

/-- **What is accepted gives switches and nothing else.** -/
theorem exists_spelled {o : Settings} (h : Settings.parse arguments = .ok o) :
    ∃ os, Spelled os arguments := by
  obtain ⟨r, hall, _⟩ := bind_eq_ok.1 h
  exact exists_spelled_opened (awaitsValue_of_settled rfl) hall

end LeaseKeeper.CommandLine
