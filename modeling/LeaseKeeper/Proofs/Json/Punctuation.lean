/-
What stands in a text where a scanner of punctuation has not failed.

* `colon_eq_ok_iff`, `endList_eq_ok_iff`, `endDocument_eq` — a mark, or the end, that has to come
  after white space;
* `nextElement_eq_none_iff`, `nextElement_eq_some_iff`, `nextKey_eq_ok_iff` — the closing bracket,
  or the next element or key, which all but the first one have a comma before them;
* `skipKey_eq_ok_iff`, `skipElements_succ_eq_ok_iff`, `skipFields_succ_eq_ok_iff` — the same of
  lists and objects that are not wanted.
-/
import LeaseKeeper.Json.Skip
import LeaseKeeper.Proofs.Except
import LeaseKeeper.Proofs.Json.Layout
import Mathlib.Data.List.TakeWhile

namespace LeaseKeeper.Json

variable {s t rest : List UInt8} {fault : Fault}

/-! ### Marks -/

theorem keyQuote_eq_ok_iff : keyQuote s = .ok rest ↔ s = byte '"' :: rest := by
  cases s with
  | nil => simp [keyQuote]
  | cons b s =>
    rw [keyQuote, List.cons.injEq]
    split
    · next hb => simp [hb]
    · next hb => simp [hb]

theorem colon_eq_ok_iff : colon s = .ok rest ↔ skipSpace s = byte ':' :: rest := by
  rw [colon]
  cases skipSpace s with
  | nil => simp
  | cons b t =>
    rw [List.cons.injEq]
    dsimp only
    split
    · next hb => simp [hb]
    · next hb => simp [hb]

theorem endList_eq_ok_iff : endList s = .ok rest ↔ skipSpace s = byte ']' :: rest := by
  rw [endList]
  cases skipSpace s with
  | nil => simp
  | cons b t =>
    rw [List.cons.injEq]
    dsimp only
    split
    · next hb => simp [hb]
    · next hb =>
      refine iff_of_false (fun h => ?_) fun h => hb h.1
      split at h
      · split at h <;> cases h
      · cases h

theorem endDocument_eq (s : List UInt8) :
    endDocument s = if Blank s then .ok () else .error .trailingCharacters := by
  have hblank : skipSpace s = [] ↔ Blank s := List.dropWhile_eq_nil_iff
  rw [endDocument]
  cases hs : skipSpace s with
  | nil => rw [if_pos (hblank.mp hs)]
  | cons b t =>
    rw [if_neg]
    intro h
    rw [hblank.mpr h] at hs
    cases hs

theorem endDocument_eq_ok_iff : endDocument s = .ok () ↔ Blank s := by
  rw [endDocument_eq]
  split
  · next h => simp [h]
  · next h => simp [h]

/-! ### Elements and keys -/

/-- Where the next element or key begins: after a comma, unless it is the first one. -/
def Next (isFirst : Bool) (s t : List UInt8) : Prop :=
  if isFirst then skipSpace s = t else ∃ u, skipSpace s = byte ',' :: u ∧ skipSpace u = t

theorem nextElement_eq_none_iff {isFirst : Bool} :
    nextElement isFirst s = .ok none ↔ ∃ t, skipSpace s = byte ']' :: t := by
  constructor
  · intro h
    unfold nextElement at h
    split at h
    · cases h
    · next b t hs =>
      split at h
      · next hb => exact ⟨t, hb ▸ hs⟩
      · split at h
        · cases h
        · split at h
          · split at h
            · cases h
            · split at h <;> cases h
          · cases h
  · rintro ⟨t, hs⟩
    rw [nextElement, hs]
    exact if_pos rfl

theorem nextElement_eq_some_iff {isFirst : Bool} :
    nextElement isFirst s = .ok (some t) ↔
      Next isFirst s t ∧ ∃ b u, t = b :: u ∧ b ≠ byte ']' := by
  constructor
  · intro h
    unfold nextElement at h
    split at h
    · cases h
    · next b u hs =>
      split at h
      · cases h
      · next hb =>
        split at h
        · next hfirst =>
          cases h
          rw [Next, if_pos hfirst]
          exact ⟨hs, b, u, rfl, hb⟩
        · next hfirst =>
          split at h
          · next hcomma =>
            split at h
            · cases h
            · next c v hu =>
              split at h
              · cases h
              · next hc =>
                cases h
                rw [Next, if_neg hfirst]
                exact ⟨⟨u, hcomma ▸ hs, hu⟩, c, v, rfl, hc⟩
          · cases h
  · rintro ⟨hnext, b, u, rfl, hb⟩
    cases isFirst with
    | true =>
      have hs : skipSpace s = b :: u := hnext
      simp only [nextElement, hs, if_neg hb, if_true]
    | false =>
      obtain ⟨v, hs, hv⟩ := hnext
      have hcomma : byte ',' ≠ byte ']' := by decide
      simp only [nextElement, hs, hv, if_neg hcomma, if_neg hb, Bool.false_eq_true, if_false,
        if_true]

/-- A key with its quotes. -/
theorem quotedKey_eq_ok_iff {next : Option String} :
    (do
      let s ← keyQuote s
      let (key, s) ← string s
      return (some key, s)) = Except.ok (next, rest) ↔
    ∃ key t, next = some key ∧ s = byte '"' :: t ∧ string t = .ok (key, rest) := by
  simp only [bind_eq_ok, Prod.exists, keyQuote_eq_ok_iff]
  constructor
  · rintro ⟨t, rfl, key, _, hkey, h⟩
    cases h
    exact ⟨key, t, rfl, rfl, hkey⟩
  · rintro ⟨key, t, rfl, rfl, hkey⟩
    exact ⟨t, rfl, key, rest, hkey, rfl⟩

theorem nextKey_eq_ok_iff {isFirst : Bool} {next : Option String} :
    nextKey isFirst s = .ok (next, rest) ↔
      (next = none ∧ skipSpace s = byte '\x7d' :: rest) ∨
      ∃ key t, next = some key ∧ Next isFirst s (byte '"' :: t) ∧ string t = .ok (key, rest) := by
  constructor
  · intro h
    unfold nextKey at h
    split at h
    · cases h
    · next b u hs =>
      split at h
      · next hb =>
        cases h
        exact .inl ⟨rfl, hb ▸ hs⟩
      · split at h
        · next hfirst =>
          obtain ⟨key, t, rfl, hquote, hkey⟩ := quotedKey_eq_ok_iff.mp h
          refine .inr ⟨key, t, rfl, ?_, hkey⟩
          rw [Next, if_pos hfirst, hs, hquote]
        · next hfirst =>
          split at h
          · next hcomma =>
            split at h
            · cases h
            · next c v hu =>
              split at h
              · cases h
              · obtain ⟨key, t, rfl, hquote, hkey⟩ := quotedKey_eq_ok_iff.mp h
                refine .inr ⟨key, t, rfl, ?_, hkey⟩
                rw [Next, if_neg hfirst]
                exact ⟨u, hcomma ▸ hs, hu.trans hquote⟩
          · cases h
  · have hbrace : byte '"' ≠ byte '\x7d' ∧ byte ',' ≠ byte '\x7d' := by decide
    rintro (⟨rfl, hs⟩ | ⟨key, t, rfl, hnext, hkey⟩)
    · rw [nextKey, hs]
      exact if_pos rfl
    · cases isFirst with
      | true =>
        have hs : skipSpace s = byte '"' :: t := hnext
        simp only [nextKey, hs, if_neg hbrace.1, if_true]
        exact quotedKey_eq_ok_iff.mpr ⟨key, t, rfl, rfl, hkey⟩
      | false =>
        obtain ⟨v, hs, hv⟩ := hnext
        simp only [nextKey, hs, hv, if_neg hbrace.1, if_neg hbrace.2, Bool.false_eq_true, if_false,
          if_true]
        exact quotedKey_eq_ok_iff.mpr ⟨key, t, rfl, rfl, hkey⟩

/-! ### Lists and objects that are not wanted -/

theorem skipKey_eq_ok_iff : skipKey s = .ok rest ↔
    ∃ t u, s = byte '"' :: t ∧ skipString t = .ok u ∧ colon u = .ok rest := by
  constructor
  · intro h
    cases s with
    | nil => cases h
    | cons b t =>
      rw [skipKey] at h
      split at h
      · cases h
      · next hquote =>
        obtain ⟨u, hu, hcolon⟩ := bind_eq_ok.mp h
        exact ⟨t, u, by rw [Classical.not_not.mp hquote], hu, hcolon⟩
  · rintro ⟨t, u, rfl, hu, hcolon⟩
    rw [skipKey, if_neg (not_not_intro rfl)]
    exact bind_eq_ok.mpr ⟨u, hu, hcolon⟩

/-- After an element or a field comes the closing bracket, or a comma and more. -/
theorem closedOrMore_eq_ok_iff {closing : UInt8} (hcomma : byte ',' ≠ closing) {atEnd : Fault}
    {more : List UInt8 → Except Fault (List UInt8)} :
    (match skipSpace s with
      | [] => throw atEnd
      | b :: t =>
        if b = closing then pure t
        else if b = byte ',' then more t
        else throw fault) = Except.ok rest ↔
    skipSpace s = closing :: rest ∨ ∃ t, skipSpace s = byte ',' :: t ∧ more t = .ok rest := by
  constructor
  · intro h
    split at h
    · cases h
    · next b t hs =>
      split at h
      · next hb =>
        cases h
        exact .inl (hb ▸ hs)
      · split at h
        · next hb => exact .inr ⟨t, hb ▸ hs, h⟩
        · cases h
  · rintro (hs | ⟨t, hs, h⟩)
    · rw [hs]
      exact if_pos rfl
    · rw [hs]
      simp only [if_neg hcomma, if_true]
      exact h

theorem skipElements_succ_eq_ok_iff {fuel : Nat} : skipElements (fuel + 1) s = .ok rest ↔
    ∃ t, skipValueWithin fuel s = .ok t ∧ (skipSpace t = byte ']' :: rest ∨
      ∃ u, skipSpace t = byte ',' :: u ∧ skipElements fuel u = .ok rest) := by
  simp only [skipElements, bind_eq_ok]
  exact exists_congr fun t => and_congr_right fun _ => closedOrMore_eq_ok_iff (by decide)

theorem skipFields_succ_eq_ok_iff {fuel : Nat} : skipFields (fuel + 1) s = .ok rest ↔
    ∃ k t, skipKey (skipSpace s) = .ok k ∧ skipValueWithin fuel k = .ok t ∧
      (skipSpace t = byte '\x7d' :: rest ∨
        ∃ u, skipSpace t = byte ',' :: u ∧ skipFields fuel u = .ok rest) := by
  simp only [skipFields, bind_eq_ok, ← exists_and_left]
  exact exists_congr fun k => exists_congr fun t => and_congr_right fun _ =>
    and_congr_right fun _ => closedOrMore_eq_ok_iff (by decide)

end LeaseKeeper.Json
