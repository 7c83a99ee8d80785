/-
What a scanner has read does not depend on what comes after it.

* `string_extend`, `nextKey_extend`, `nextElement_extend`, `endList_extend` — a scanner that has
  come to a quote, a bracket or a comma reads the same when the text goes on behind it;
* `number_extend` — so does one that has read a number, if something is left of the text: at its
  end there could be more digits;
* `skipValue_extend` — a value that is skipped is one or the other.

Design notes: a longer text comes with more fuel, so the lemmas on skipping are about any fuel that
is at least as large.
-/
import LeaseKeeper.Proofs.Json.Punctuation
import LeaseKeeper.Proofs.Json.Strings

namespace LeaseKeeper.Json

variable {s t rest : List UInt8} {b : UInt8} {fault : Fault}

theorem skipSpace_extend (h : skipSpace s = b :: t) (more : List UInt8) :
    skipSpace (s ++ more) = b :: (t ++ more) := by
  rw [skipSpace] at h
  rw [skipSpace, List.dropWhile_append, h]
  rfl

theorem word_extend {cs : List Char} (h : word cs s = .ok rest) (more : List UInt8) :
    word cs (s ++ more) = .ok (rest ++ more) := by
  induction cs generalizing s with
  | nil =>
    cases h
    rfl
  | cons c cs ih =>
    cases s with
    | nil => cases h
    | cons b s =>
      rw [word] at h
      split at h
      · next hb =>
        rw [List.cons_append, word, if_pos hb]
        exact ih h
      · cases h

/-! ### Strings -/

theorem hexFour_extend {n : Nat} (h : hexFour s = .ok (n, rest)) (more : List UInt8) :
    hexFour (s ++ more) = .ok (n, rest ++ more) := by
  match s with
  | [] | [_] | [_, _] | [_, _, _] => cases h
  | a :: b :: c :: d :: s =>
    rw [hexFour] at h
    simp only [List.cons_append, hexFour]
    split at h
    · cases h
      rfl
    · cases h

theorem pairByte_extend {c : Char} (h : pairByte c s = .ok rest) (more : List UInt8) :
    pairByte c (s ++ more) = .ok (rest ++ more) := by
  cases s with
  | nil => cases h
  | cons b s =>
    rw [pairByte] at h
    split at h
    · next hb =>
      cases h
      exact if_pos hb
    · cases h

theorem codePoint_extend {c : Char} (h : codePoint s = .ok (c, rest)) (more : List UInt8) :
    codePoint (s ++ more) = .ok (c, rest ++ more) := by
  simp only [codePoint, bind_eq_ok, Prod.exists] at h ⊢
  obtain ⟨high, after, hhigh, h⟩ := h
  refine ⟨high, after ++ more, hexFour_extend hhigh more, ?_⟩
  split at h
  · cases h
  · next hlone =>
    rw [if_neg hlone]
    split at h
    · next hsingle =>
      cases h
      exact if_pos hsingle
    · next hpair =>
      rw [if_neg hpair]
      simp only [bind_eq_ok, Prod.exists] at h ⊢
      obtain ⟨_, hbackslash, _, hletter, low, _, hlow, h⟩ := h
      refine ⟨_, pairByte_extend hbackslash more, _, pairByte_extend hletter more, low, _,
        hexFour_extend hlow more, ?_⟩
      split at h
      · cases h
      · next hvalid =>
        simp only [pure, Except.pure, Except.ok.injEq, Prod.mk.injEq] at h
        obtain ⟨rfl, rfl⟩ := h
        rw [if_neg hvalid]
        rfl

theorem escape_extend {care : Care} {bytes : List UInt8} (h : escape care s = .ok (bytes, rest))
    (more : List UInt8) : escape care (s ++ more) = .ok (bytes, rest ++ more) := by
  cases s with
  | nil => cases h
  | cons b s =>
    rw [List.cons_append]
    simp only [escape] at h ⊢
    split at h
    · cases h
      rfl
    · split at h
      · cases h
      · next hu =>
        rw [if_neg hu]
        cases care with
        | kept =>
          simp only [map_eq_ok, Prod.exists] at h ⊢
          obtain ⟨c, _, hc, h⟩ := h
          cases h
          exact ⟨c, _, codePoint_extend hc more, rfl⟩
        | skipped =>
          simp only [map_eq_ok, Prod.exists] at h ⊢
          obtain ⟨n, _, hn, h⟩ := h
          cases h
          exact ⟨n, _, hexFour_extend hn more, rfl⟩

theorem content_extend {care : Care} {bytes : List UInt8} (h : content care s = .ok (bytes, rest))
    (more : List UInt8) : content care (s ++ more) = .ok (bytes, rest ++ more) := by
  -- Only the closing quote ends a string, and it is in the text already.
  fun_induction content care s generalizing bytes with
  | case1 => cases h
  | case2 s =>
    cases h
    exact content_quote _
  | case3 => cases h
  | case4 s front after hescape hlt hquote ih =>
    obtain ⟨⟨bytes', rest'⟩, hrest, h⟩ := map_eq_ok.mp h
    cases h
    rw [List.cons_append, content_escape (escape_extend hescape more), ih hrest]
    rfl
  | case5 => cases h
  | case6 b s hquote hslash hcontrol ih =>
    obtain ⟨⟨bytes', rest'⟩, hrest, h⟩ := map_eq_ok.mp h
    cases h
    rw [List.cons_append, content, if_neg hquote, if_neg hslash, if_neg hcontrol, ih hrest]
    rfl

theorem string_extend {text : String} (h : string s = .ok (text, rest)) (more : List UInt8) :
    string (s ++ more) = .ok (text, rest ++ more) := by
  simp only [string, bind_eq_ok, Prod.exists] at h ⊢
  obtain ⟨bytes, _, hcontent, h⟩ := h
  refine ⟨bytes, _, content_extend hcontent more, ?_⟩
  split at h
  · cases h
    rfl
  · cases h

theorem skipString_extend (h : skipString s = .ok rest) (more : List UInt8) :
    skipString (s ++ more) = .ok (rest ++ more) := by
  simp only [skipString, map_eq_ok, Prod.exists] at h ⊢
  obtain ⟨bytes, _, hcontent, rfl⟩ := h
  exact ⟨bytes, _, content_extend hcontent more, rfl⟩

/-! ### Numbers -/

/-- Digits end at a byte that is none, whatever comes after it. -/
theorem takeWhile_isDigit_extend (h : s.dropWhile isDigit ≠ []) (more : List UInt8) :
    (s ++ more).takeWhile isDigit = s.takeWhile isDigit ∧
      (s ++ more).dropWhile isDigit = s.dropWhile isDigit ++ more := by
  have hlength : (s.takeWhile isDigit).length ≠ s.length := by
    intro hall
    have hparts := congrArg List.length (List.takeWhile_append_dropWhile (p := isDigit) (l := s))
    rw [List.length_append] at hparts
    exact h (List.length_eq_zero_iff.mp (by omega))
  constructor
  · rw [List.takeWhile_append, if_neg hlength]
  · rw [List.dropWhile_append, if_neg (fun hnil => h (List.isEmpty_iff.mp hnil))]

theorem someDigits_eq_ok_iff {ds : List UInt8} : someDigits fault s = .ok (ds, rest) ↔
    ds ≠ [] ∧ s.takeWhile isDigit = ds ∧ s.dropWhile isDigit = rest := by
  rw [someDigits]
  constructor
  · intro h
    split at h
    · cases h
    · next hne =>
      cases h
      exact ⟨hne, rfl, rfl⟩
  · rintro ⟨hne, rfl, rfl⟩
    split
    · next hnil => exact absurd hnil hne
    · rfl

theorem someDigits_extend {ds : List UInt8} (h : someDigits fault s = .ok (ds, rest))
    (hrest : rest ≠ []) (more : List UInt8) :
    someDigits fault (s ++ more) = .ok (ds, rest ++ more) := by
  rw [someDigits_eq_ok_iff] at h ⊢
  obtain ⟨hne, rfl, rfl⟩ := h
  exact ⟨hne, takeWhile_isDigit_extend hrest more⟩

theorem wholeDigits_extend {ds : List UInt8} (h : wholeDigits fault s = .ok (ds, rest))
    (hrest : rest ≠ []) (more : List UInt8) :
    wholeDigits fault (s ++ more) = .ok (ds, rest ++ more) := by
  unfold wholeDigits at h
  split at h
  · cases h
  · next b s =>
    rw [List.cons_append]
    unfold wholeDigits
    dsimp only
    split at h
    · next hzero =>
      rw [if_pos hzero]
      split at h
      · cases h
        exact absurd rfl hrest
      · split at h
        · cases h
        · next hc =>
          cases h
          exact if_neg hc
    · next hzero =>
      rw [if_neg hzero]
      split at h
      · next hdigit =>
        cases h
        obtain ⟨htake, hdrop⟩ := takeWhile_isDigit_extend hrest more
        rw [if_pos hdigit, htake, hdrop]
      · cases h

theorem fractionDigits_extend {ds : Option (List UInt8)}
    (h : fractionDigits fault s = .ok (ds, rest)) (hrest : rest ≠ []) (more : List UInt8) :
    fractionDigits fault (s ++ more) = .ok (ds, rest ++ more) := by
  cases s with
  | nil =>
    cases h
    exact absurd rfl hrest
  | cons b s =>
    rw [List.cons_append]
    rw [fractionDigits] at h ⊢
    split at h
    · next hpoint =>
      simp only [map_eq_ok, Prod.exists] at h
      obtain ⟨ds, _, hds, h⟩ := h
      cases h
      rw [if_pos hpoint, someDigits_extend hds hrest more]
      rfl
    · next hpoint =>
      cases h
      exact if_neg hpoint

theorem exponentDigits_extend {e : Option (Bool × List UInt8)}
    (h : exponentDigits fault s = .ok (e, rest)) (hrest : rest ≠ []) (more : List UInt8) :
    exponentDigits fault (s ++ more) = .ok (e, rest ++ more) := by
  unfold exponentDigits at h
  split at h
  · cases h
    exact absurd rfl hrest
  · next b s =>
    rw [List.cons_append]
    unfold exponentDigits
    dsimp only
    split at h
    · next hmarker =>
      rw [if_pos hmarker]
      split at h
      · next c s =>
        dsimp only [List.cons_append]
        split at h
        · next hsign =>
          simp only [map_eq_ok, Prod.exists] at h
          obtain ⟨ds, _, hds, h⟩ := h
          cases h
          rw [if_pos hsign, someDigits_extend hds hrest more]
          rfl
        · next hsign =>
          simp only [map_eq_ok, Prod.exists] at h
          obtain ⟨ds, _, hds, h⟩ := h
          cases h
          rw [if_neg hsign, ← List.cons_append, someDigits_extend hds hrest more]
          rfl
      · cases h
    · next hmarker =>
      cases h
      exact if_neg hmarker

theorem literal_extend {l : Literal} (h : literal fault s = .ok (l, rest)) (hrest : rest ≠ [])
    (more : List UInt8) : literal fault (s ++ more) = .ok (l, rest ++ more) := by
  simp only [literal, bind_eq_ok, Prod.exists] at h ⊢
  obtain ⟨whole, t, hwhole, fraction, u, hfraction, exponent, _, hexponent, h⟩ := h
  cases h
  -- What comes after a part that is at the end of the text is at its end as well.
  have hu : u ≠ [] := by
    rintro rfl
    cases hexponent
    exact hrest rfl
  have ht : t ≠ [] := by
    rintro rfl
    cases hfraction
    exact hu rfl
  exact ⟨whole, _, wholeDigits_extend hwhole ht more, fraction, _,
    fractionDigits_extend hfraction hu more, exponent, _,
    exponentDigits_extend hexponent hrest more, rfl⟩

theorem number_extend {negative : Bool} {n : Number} (h : number negative s = .ok (n, rest))
    (hrest : rest ≠ []) (more : List UInt8) :
    number negative (s ++ more) = .ok (n, rest ++ more) := by
  simp only [number, bind_eq_ok, Prod.exists] at h ⊢
  obtain ⟨l, _, hl, n, hn, h⟩ := h
  cases h
  exact ⟨l, _, literal_extend hl hrest more, n, hn, rfl⟩

theorem skipNumber_extend (h : skipNumber s = .ok rest) (hrest : rest ≠ []) (more : List UInt8) :
    skipNumber (s ++ more) = .ok (rest ++ more) := by
  simp only [skipNumber, map_eq_ok, Prod.exists] at h ⊢
  obtain ⟨l, _, hl, rfl⟩ := h
  exact ⟨l, _, literal_extend hl hrest more, rfl⟩

/-! ### Lists and objects -/

theorem Next.extend {isFirst : Bool} (h : Next isFirst s (b :: t)) (more : List UInt8) :
    Next isFirst (s ++ more) (b :: (t ++ more)) := by
  cases isFirst with
  | true => exact skipSpace_extend h more
  | false =>
    obtain ⟨u, hs, hu⟩ := h
    exact ⟨_, skipSpace_extend hs more, skipSpace_extend hu more⟩

theorem nextElement_extend {isFirst : Bool} {next : Option (List UInt8)}
    (h : nextElement isFirst s = .ok next) (more : List UInt8) :
    nextElement isFirst (s ++ more) = .ok (next.map (· ++ more)) := by
  cases next with
  | none =>
    obtain ⟨t, hs⟩ := nextElement_eq_none_iff.mp h
    exact nextElement_eq_none_iff.mpr ⟨_, skipSpace_extend hs more⟩
  | some t =>
    obtain ⟨hnext, b, u, rfl, hb⟩ := nextElement_eq_some_iff.mp h
    exact nextElement_eq_some_iff.mpr ⟨hnext.extend more, b, _, rfl, hb⟩

theorem nextKey_extend {isFirst : Bool} {next : Option String}
    (h : nextKey isFirst s = .ok (next, rest)) (more : List UInt8) :
    nextKey isFirst (s ++ more) = .ok (next, rest ++ more) := by
  rw [nextKey_eq_ok_iff] at h ⊢
  rcases h with ⟨rfl, hs⟩ | ⟨key, t, rfl, hnext, hkey⟩
  · exact .inl ⟨rfl, skipSpace_extend hs more⟩
  · exact .inr ⟨key, _, rfl, hnext.extend more, string_extend hkey more⟩

theorem endList_extend (h : endList s = .ok rest) (more : List UInt8) :
    endList (s ++ more) = .ok (rest ++ more) := by
  rw [endList_eq_ok_iff] at h ⊢
  exact skipSpace_extend h more

theorem colon_extend (h : colon s = .ok rest) (more : List UInt8) :
    colon (s ++ more) = .ok (rest ++ more) := by
  rw [colon_eq_ok_iff] at h ⊢
  exact skipSpace_extend h more

/-! ### Values that are not wanted -/

theorem skipKey_extend (h : skipKey (skipSpace s) = .ok rest) (more : List UInt8) :
    skipKey (skipSpace (s ++ more)) = .ok (rest ++ more) := by
  obtain ⟨t, u, hs, hu, hcolon⟩ := skipKey_eq_ok_iff.mp h
  rw [skipSpace_extend hs]
  exact skipKey_eq_ok_iff.mpr ⟨_, _, rfl, skipString_extend hu more, colon_extend hcolon more⟩

/-- What follows an opening bracket is the closing one, or what the brackets hold. -/
theorem opened_extend {closing : UInt8} {inside inside' : List UInt8 → Except Fault (List UInt8)}
    {more : List UInt8}
    (hinside : ∀ {t rest}, inside t = .ok rest → inside' (t ++ more) = .ok (rest ++ more))
    (h : (match skipSpace s with
      | [] => .error fault
      | c :: t => if c = closing then .ok t else inside (c :: t)) = Except.ok rest) :
    (match skipSpace (s ++ more) with
      | [] => .error fault
      | c :: t => if c = closing then .ok t else inside' (c :: t)) = Except.ok (rest ++ more) := by
  split at h
  · cases h
  · next c t hs =>
    rw [skipSpace_extend hs]
    dsimp only
    split at h
    · next hc =>
      cases h
      exact if_pos hc
    · next hc =>
      rw [if_neg hc]
      exact hinside h

/-- The readers of what is skipped read the same with more fuel, of a longer text. -/
structure SkipsAlike (fuel : Nat) : Prop where
  value : ∀ {s rest}, skipValueWithin fuel s = .ok rest → rest ≠ [] → ∀ {fuel'}, fuel ≤ fuel' →
    ∀ more, skipValueWithin fuel' (s ++ more) = .ok (rest ++ more)
  elements : ∀ {s rest}, skipElements fuel s = .ok rest → ∀ {fuel'}, fuel ≤ fuel' →
    ∀ more, skipElements fuel' (s ++ more) = .ok (rest ++ more)
  fields : ∀ {s rest}, skipFields fuel s = .ok rest → ∀ {fuel'}, fuel ≤ fuel' →
    ∀ more, skipFields fuel' (s ++ more) = .ok (rest ++ more)

theorem skipsAlike (fuel : Nat) : SkipsAlike fuel := by
  induction fuel with
  | zero => exact ⟨nofun, nofun, nofun⟩
  | succ fuel ih =>
    -- A value within brackets has a comma or a bracket after it, so a number there ends as well.
    have hne {t u : List UInt8} {b : UInt8} (h : skipSpace t = b :: u) : t ≠ [] := by
      rintro rfl
      cases h
    refine ⟨?value, ?elements, ?fields⟩
    case value =>
      intro s rest h hrest fuel' hle more
      obtain ⟨fuel', rfl⟩ : ∃ k, fuel' = k + 1 := ⟨fuel' - 1, by omega⟩
      have hle := Nat.le_of_succ_le_succ hle
      unfold skipValueWithin at h ⊢
      split at h
      · cases h
      · next b t hs =>
        rw [skipSpace_extend hs]
        dsimp only
        split at h
        · next hb => exact (if_pos hb).trans (word_extend h more)
        rw [if_neg ‹¬b = byte 'n'›]
        split at h
        · next hb => exact (if_pos hb).trans (word_extend h more)
        rw [if_neg ‹¬b = byte 't'›]
        split at h
        · next hb => exact (if_pos hb).trans (word_extend h more)
        rw [if_neg ‹¬b = byte 'f'›]
        split at h
        · next hb => exact (if_pos hb).trans (skipNumber_extend h hrest more)
        rw [if_neg ‹¬b = byte '-'›]
        split at h
        · next hb => exact (if_pos hb).trans (skipNumber_extend h hrest more)
        rw [if_neg ‹¬isDigit b = true›]
        split at h
        · next hb => exact (if_pos hb).trans (skipString_extend h more)
        rw [if_neg ‹¬b = byte '"'›]
        split at h
        · next hb =>
          exact (if_pos hb).trans (opened_extend (fun ht => ih.elements ht hle more) h)
        rw [if_neg ‹¬b = byte '['›]
        split at h
        · next hb =>
          exact (if_pos hb).trans (opened_extend (fun ht => ih.fields ht hle more) h)
        cases h
    case elements =>
      intro s rest h fuel' hle more
      obtain ⟨fuel', rfl⟩ : ∃ k, fuel' = k + 1 := ⟨fuel' - 1, by omega⟩
      have hle := Nat.le_of_succ_le_succ hle
      obtain ⟨t, ht, hend⟩ := skipElements_succ_eq_ok_iff.mp h
      have htail : t ≠ [] := hend.elim hne fun ⟨_, hs, _⟩ => hne hs
      refine skipElements_succ_eq_ok_iff.mpr ⟨t ++ more, ih.value ht htail hle more, ?_⟩
      rcases hend with hs | ⟨u, hs, hu⟩
      · exact .inl (skipSpace_extend hs more)
      · exact .inr ⟨_, skipSpace_extend hs more, ih.elements hu hle more⟩
    case fields =>
      intro s rest h fuel' hle more
      obtain ⟨fuel', rfl⟩ : ∃ k, fuel' = k + 1 := ⟨fuel' - 1, by omega⟩
      have hle := Nat.le_of_succ_le_succ hle
      obtain ⟨k, t, hk, ht, hend⟩ := skipFields_succ_eq_ok_iff.mp h
      have htail : t ≠ [] := hend.elim hne fun ⟨_, hs, _⟩ => hne hs
      refine skipFields_succ_eq_ok_iff.mpr
        ⟨_, t ++ more, skipKey_extend hk more, ih.value ht htail hle more, ?_⟩
      rcases hend with hs | ⟨u, hs, hu⟩
      · exact .inl (skipSpace_extend hs more)
      · exact .inr ⟨_, skipSpace_extend hs more, ih.fields hu hle more⟩

theorem skipValue_extend (h : skipValue s = .ok rest) (hrest : rest ≠ []) (more : List UInt8) :
    skipValue (s ++ more) = .ok (rest ++ more) := by
  refine (skipsAlike _).value h hrest ?_ more
  rw [List.length_append]
  omega

end LeaseKeeper.Json
