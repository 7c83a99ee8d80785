/-
A value that is not wanted is skipped to its end, whatever it is.

* `skipValue_writes` — what is left after any text of any document, of any depth, and with any white
  space before it, is what follows that text;
* `Skips` — the same for one text and any fuel that is enough for it.

Design notes: the lists and objects that are skipped are taken by the length of their texts, since
what stands in brackets is shorter than the whole.  Two steps for each byte are enough: one for the
byte that begins a value, and one for the bracket or comma before it.
-/
import LeaseKeeper.Json.Skip
import LeaseKeeper.Proofs.Json.Scanning

namespace LeaseKeeper.Json

variable {α : Type} {R : α → List UInt8 → Prop} {Q : Document → List UInt8 → Prop} {as : List α}
  {v : Document} {b : UInt8} {s t w rest : List UInt8}

/-! ### What ends a number -/

theorem endsNumber_cons (h : isSpace b = true ∨ b = byte ',' ∨ b = byte ']' ∨ b = byte '\x7d') :
    EndsNumber (b :: s) := by
  intro c t hc
  cases hc
  simp only [isSpace, Bool.or_eq_true, beq_iff_eq] at h
  rcases h with (((rfl | rfl) | rfl) | rfl) | rfl | rfl | rfl <;> decide

theorem endsNumber_blank (hw : Blank w) (h : EndsNumber s) : EndsNumber (w ++ s) := by
  cases w with
  | nil => exact h
  | cons b w => exact endsNumber_cons (.inl (hw b List.mem_cons_self))

theorem Separated.endsNumber (h : Separated R as t) {closing : Char}
    (hc : closing = ']' ∨ closing = '\x7d') : EndsNumber (t ++ byte closing :: rest) := by
  cases h with
  | done hw =>
    refine endsNumber_blank hw (endsNumber_cons (.inr (.inr ?_)))
    exact hc.imp (congrArg byte) (congrArg byte)
  | more hv hw hs ht =>
    rw [List.append_assoc]
    exact endsNumber_blank hv (endsNumber_cons (.inr (.inl rfl)))

/-! ### Skipping -/

/-- A value with this text is skipped to its end. -/
def Skips (s : List UInt8) : Prop :=
  ∀ fuel rest, 2 * s.length ≤ fuel → EndsNumber rest → skipValueWithin fuel (s ++ rest) = .ok rest

theorem skipValueWithin_blank (hw : Blank w) (fuel : Nat) (s : List UInt8) :
    skipValueWithin fuel (w ++ s) = skipValueWithin fuel s := by
  cases fuel with
  | zero => rfl
  | succ fuel => rw [skipValueWithin, skipValueWithin, skipSpace_blank hw]

/-! ### Lists -/

theorem skipElements_last {fuel : Nat} (hw : Blank w)
    (h : skipValueWithin fuel s = .ok (w ++ byte ']' :: rest)) :
    skipElements (fuel + 1) s = .ok rest := by
  have hspace : isSpace (byte ']') = false := by decide
  rw [skipElements, h]
  simp only [bind, Except.bind, skipSpace_blank hw, skipSpace_cons hspace]
  rfl

theorem skipElements_next {fuel : Nat} (hw : Blank w)
    (h : skipValueWithin fuel s = .ok (w ++ byte ',' :: rest)) :
    skipElements (fuel + 1) s = skipElements fuel rest := by
  have hspace : isSpace (byte ',') = false := by decide
  rw [skipElements, h]
  simp only [bind, Except.bind, skipSpace_blank hw, skipSpace_cons hspace]
  rfl

theorem skipElements_separated {n : Nat} (ih : ∀ v s, s.length < n → Writes v s → Skips s)
    {vs : List Document} (h : Separated Writes vs t) (hn : t.length ≤ n) {fuel : Nat}
    (hfuel : 2 * t.length ≤ fuel) (hs : skipValueWithin fuel s = .ok (t ++ byte ']' :: rest)) :
    skipElements (fuel + 1) s = .ok rest := by
  induction h generalizing fuel s with
  | done hw => exact skipElements_last hw hs
  | @more v vs x w s' t hx hw hs' ht iht =>
    simp only [List.length_append, List.length_cons] at hn hfuel
    obtain ⟨fuel, rfl⟩ : ∃ k, fuel = k + 1 := ⟨fuel - 1, by omega⟩
    rw [List.append_assoc, List.cons_append] at hs
    rw [skipElements_next hx hs]
    refine iht (by omega) (by omega) ?_
    rw [List.append_assoc, List.append_assoc, skipValueWithin_blank hw]
    exact ih v s' (by omega) hs' fuel _ (by omega) (ht.endsNumber (.inl rfl))

/-! ### Objects -/

/-- A field is its key and its value, with what stands between them. -/
theorem WritesField.skipKey {f : String × Document} (h : WritesField Q f s) :
    ∃ x t, Blank x ∧ Q f.2 t ∧ t.length < s.length ∧
      ∀ rest, skipKey (s ++ rest) = .ok (x ++ (t ++ rest)) := by
  cases h with
  | @mk key v k w x t hk hw hx ht =>
    refine ⟨x, t, hx, ht, ?_, fun rest => ?_⟩
    · simp only [List.length_cons, List.length_append]
      omega
    · simp only [List.cons_append, List.append_assoc, Json.skipKey, ne_eq, not_true, if_false, bind,
        Except.bind, skipString_spellsText hk, colon_blank hw]

theorem WritesField.exists_quote {f : String × Document} (h : WritesField Q f s) :
    ∃ t, s = byte '"' :: t := by
  cases h with
  | mk hk hw hx ht => exact ⟨_, rfl⟩

theorem skipSpace_field {f : String × Document} (h : WritesField Q f s) (rest : List UInt8) :
    skipSpace (s ++ rest) = s ++ rest := by
  obtain ⟨t, rfl⟩ := h.exists_quote
  exact skipSpace_cons (by decide) _

theorem skipFields_last {fuel : Nat} {t : List UInt8} (hkey : skipKey (skipSpace s) = .ok t)
    (hw : Blank w) (h : skipValueWithin fuel t = .ok (w ++ byte '\x7d' :: rest)) :
    skipFields (fuel + 1) s = .ok rest := by
  have hspace : isSpace (byte '\x7d') = false := by decide
  rw [skipFields, hkey]
  simp only [bind, Except.bind, h, skipSpace_blank hw, skipSpace_cons hspace]
  rfl

theorem skipFields_next {fuel : Nat} {t : List UInt8} (hkey : skipKey (skipSpace s) = .ok t)
    (hw : Blank w) (h : skipValueWithin fuel t = .ok (w ++ byte ',' :: rest)) :
    skipFields (fuel + 1) s = skipFields fuel rest := by
  have hspace : isSpace (byte ',') = false := by decide
  rw [skipFields, hkey]
  simp only [bind, Except.bind, h, skipSpace_blank hw, skipSpace_cons hspace]
  rfl

theorem skipFields_separated {n : Nat} (ih : ∀ v s, s.length < n → Writes v s → Skips s)
    {fs : List (String × Document)} (h : Separated (WritesField Writes) fs t) (hn : t.length ≤ n)
    {fuel : Nat} (hfuel : 2 * t.length ≤ fuel) {after : List UInt8}
    (hkey : skipKey (skipSpace s) = .ok after)
    (hs : skipValueWithin fuel after = .ok (t ++ byte '\x7d' :: rest)) :
    skipFields (fuel + 1) s = .ok rest := by
  induction h generalizing fuel s after with
  | done hw => exact skipFields_last hkey hw hs
  | @more f fs x w s' t hx hw hs' ht iht =>
    obtain ⟨y, u, hy, hu, hlt, hskip⟩ := hs'.skipKey
    simp only [List.length_append, List.length_cons] at hn hfuel
    obtain ⟨fuel, rfl⟩ : ∃ k, fuel = k + 1 := ⟨fuel - 1, by omega⟩
    rw [List.append_assoc, List.cons_append] at hs
    rw [skipFields_next hkey hx hs]
    have hnext : skipKey (skipSpace (w ++ (s' ++ t) ++ byte '\x7d' :: rest)) =
        .ok (y ++ (u ++ (t ++ byte '\x7d' :: rest))) := by
      rw [List.append_assoc, List.append_assoc, skipSpace_blank hw, skipSpace_field hs', hskip]
    refine iht (by omega) (by omega) hnext ?_
    rw [skipValueWithin_blank hy]
    exact ih f.2 u (by omega) hu fuel _ (by omega) (ht.endsNumber (.inr rfl))

/-! ### Values -/

theorem skipValueWithin_list (fuel : Nat) (s : List UInt8) :
    skipValueWithin (fuel + 1) (byte '[' :: s) =
      match skipSpace s with
      | [] => .error .endInList
      | c :: rest => if c = byte ']' then .ok rest else skipElements fuel (c :: rest) := by
  rw [skipValueWithin, skipSpace_cons (by decide)]
  rfl

theorem skipValueWithin_object (fuel : Nat) (s : List UInt8) :
    skipValueWithin (fuel + 1) (byte '\x7b' :: s) =
      match skipSpace s with
      | [] => .error .endInObject
      | c :: rest => if c = byte '\x7d' then .ok rest else skipFields fuel (c :: rest) := by
  rw [skipValueWithin, skipSpace_cons (by decide)]
  rfl

theorem skipValueWithin_number (fuel : Nat) (n : Numeral) (s : List UInt8) :
    skipValueWithin (fuel + 1) (n.bytes ++ s) = skipNumber (n.unsigned.map byte ++ s) := by
  rw [Numeral.bytes]
  by_cases hn : n.negative = true
  · rw [if_pos hn, List.cons_append, skipValueWithin, skipSpace_cons (by decide)]
    rfl
  · obtain ⟨b, t, hb, hdigit⟩ := n.exists_unsigned
    have hne {c : Char} (hc : isDigit (byte c) = false) : ¬b = byte c := ne_of_isDigit hdigit hc
    rw [if_neg hn, hb, List.cons_append, skipValueWithin,
      skipSpace_cons (isSpace_of_isDigit hdigit)]
    simp only [if_neg (hne (c := 'n') (by decide)), if_neg (hne (c := 't') (by decide)),
      if_neg (hne (c := 'f') (by decide)), if_neg (hne (c := '-') (by decide)), if_pos hdigit]

theorem skips_array {n : Nat} (ih : ∀ v s, s.length < n → Writes v s → Skips s)
    {vs : List Document} (h : Enclosed Writes '[' ']' vs s) (hn : s.length ≤ n) : Skips s := by
  intro fuel rest hfuel hrest
  cases h with
  | empty hw =>
    simp only [List.length_append, List.length_cons] at hfuel
    obtain ⟨fuel, rfl⟩ : ∃ k, fuel = k + 1 := ⟨fuel - 1, by omega⟩
    rw [List.cons_append, List.append_assoc, skipValueWithin_list, skipSpace_blank hw]
    rfl
  | @items v vs w s t hw hs ht =>
    simp only [List.length_append, List.length_cons] at hfuel hn
    obtain ⟨fuel, rfl⟩ : ∃ k, fuel = k + 1 + 1 := ⟨fuel - 2, by omega⟩
    obtain ⟨b, u, rfl, hb⟩ := hs.leads
    obtain ⟨hspace, hend⟩ := hb.ne_closing
    have hfirst := ih v (b :: u) (by omega) hs fuel (t ++ byte ']' :: rest) (by omega)
      (ht.endsNumber (.inl rfl))
    rw [List.cons_append, List.append_assoc, List.append_assoc, List.append_assoc,
      skipValueWithin_list, skipSpace_blank hw, List.cons_append, skipSpace_cons hspace]
    simp only [if_neg hend]
    exact skipElements_separated ih ht (by omega) (by omega) hfirst

theorem skips_object {n : Nat} (ih : ∀ v s, s.length < n → Writes v s → Skips s)
    {fs : List (String × Document)} (h : Enclosed (WritesField Writes) '\x7b' '\x7d' fs s)
    (hn : s.length ≤ n) : Skips s := by
  intro fuel rest hfuel hrest
  cases h with
  | empty hw =>
    simp only [List.length_append, List.length_cons] at hfuel
    obtain ⟨fuel, rfl⟩ : ∃ k, fuel = k + 1 := ⟨fuel - 1, by omega⟩
    rw [List.cons_append, List.append_assoc, skipValueWithin_object, skipSpace_blank hw]
    rfl
  | @items f fs w s t hw hs ht =>
    obtain ⟨x, u, hx, hu, hlt, hskip⟩ := hs.skipKey
    simp only [List.length_append, List.length_cons] at hfuel hn
    obtain ⟨fuel, rfl⟩ : ∃ k, fuel = k + 1 + 1 := ⟨fuel - 2, by omega⟩
    have hfirst := ih f.2 u (by omega) hu fuel (t ++ byte '\x7d' :: rest) (by omega)
      (ht.endsNumber (.inr rfl))
    rw [← skipValueWithin_blank hx] at hfirst
    have hkey := hskip (t ++ byte '\x7d' :: rest)
    rw [← skipSpace_field hs] at hkey
    rw [List.cons_append, List.append_assoc, List.append_assoc, List.append_assoc,
      skipValueWithin_object, skipSpace_blank hw, skipSpace_field hs]
    obtain ⟨k, rfl⟩ := hs.exists_quote
    exact skipFields_separated ih ht (by omega) (by omega) hkey hfirst

theorem skips_writes (h : Writes v s) : Skips s := by
  induction hn : s.length using Nat.strongRecOn generalizing v s with
  | ind n ih =>
    have hshorter : ∀ v s, s.length < n → Writes v s → Skips s :=
      fun v s hlt hs => ih s.length hlt hs rfl
    cases h with
    | array h => exact skips_array hshorter h (Nat.le_of_eq hn)
    | object h => exact skips_object hshorter h (Nat.le_of_eq hn)
    | null =>
      intro fuel rest hfuel hrest
      obtain ⟨fuel, rfl⟩ : ∃ k, fuel = k + 1 := ⟨fuel - 1, by simp at hfuel; omega⟩
      rfl
    | boolean b =>
      intro fuel rest hfuel hrest
      obtain ⟨fuel, rfl⟩ : ∃ k, fuel = k + 1 := ⟨fuel - 1, by cases b <;> simp at hfuel <;> omega⟩
      cases b <;> rfl
    | number n =>
      intro fuel rest hfuel hrest
      obtain ⟨b, t, hb, -⟩ := (Writes.number n).leads
      obtain ⟨fuel, rfl⟩ : ∃ k, fuel = k + 1 := ⟨fuel - 1, by simp [hb] at hfuel; omega⟩
      rw [skipValueWithin_number, skipNumber_unsigned n hrest]
    | @string t s h =>
      intro fuel rest hfuel hrest
      obtain ⟨fuel, rfl⟩ : ∃ k, fuel = k + 1 := ⟨fuel - 1, by simp at hfuel; omega⟩
      rw [List.cons_append, List.append_assoc, skipValueWithin, skipSpace_cons (by decide)]
      exact skipString_spellsText h rest

/-- Whatever a document is, skipping it leaves what comes after its text. -/
theorem skipValue_writes (h : Writes v s) (hw : Blank w) (hrest : EndsNumber rest) :
    skipValue (w ++ (s ++ rest)) = .ok rest := by
  have hfuel : 2 * s.length ≤ 2 * (w ++ (s ++ rest)).length + 2 := by
    simp only [List.length_append]
    omega
  rw [skipValue, skipValueWithin_blank hw]
  exact skips_writes h _ rest hfuel hrest

end LeaseKeeper.Json
