/-
The punctuation of a document is read as what it is, with any white space around it.

* `nextElement_first`, `nextElement_next`, `nextElement_end` — the items of a list;
* `nextKey_first`, `nextKey_next`, `nextKey_end` — the keys of an object;
* `blank_lineBreak` — what sets the parts of a written document apart is white space.
-/
import LeaseKeeper.Json.Punctuation
import LeaseKeeper.Proofs.Json.Strings

namespace LeaseKeeper.Json

open Text.Utf8 (encode)

/-! ### White space -/

theorem skipSpace_cons {b : UInt8} (h : isSpace b = false) (s : List UInt8) :
    skipSpace (b :: s) = b :: s := by
  rw [skipSpace, List.dropWhile_cons, if_neg (by rw [h]; exact Bool.false_ne_true)]

/-- White space, or nothing. -/
def Blank (s : List UInt8) : Prop := ∀ b ∈ s, isSpace b = true

instance (s : List UInt8) : Decidable (Blank s) :=
  List.decidableBAll (fun b => isSpace b = true) s

variable {v w : List UInt8}

theorem blank_nil : Blank [] := fun _ hb => absurd hb List.not_mem_nil

theorem skipSpace_blank (hw : Blank w) (s : List UInt8) : skipSpace (w ++ s) = skipSpace s :=
  List.dropWhile_append_of_pos hw

theorem blank_lineBreak (layout : Layout) (depth : Nat) :
    Blank (encode (layout.lineBreak depth)) := by
  intro b hb
  cases layout with
  | compact => cases hb
  | indented =>
    have hchars : ∀ c ∈ Layout.indented.lineBreak depth, c = '\n' ∨ c = '\t' := by
      intro c hc
      rcases List.mem_cons.mp hc with h | h
      · exact Or.inl h
      · exact Or.inr (List.eq_of_mem_replicate h)
    rw [encode_ascii (fun c hc => by rcases hchars c hc with rfl | rfl <;> decide)] at hb
    obtain ⟨c, hc, rfl⟩ := List.mem_map.mp hb
    rcases hchars c hc with rfl | rfl <;> decide

/-! ### Lists -/

theorem nextElement_first (hw : Blank w) {b : UInt8} (hspace : isSpace b = false)
    (hend : b ≠ byte ']') (s : List UInt8) :
    nextElement true (w ++ b :: s) = .ok (some (b :: s)) := by
  rw [nextElement, skipSpace_blank hw, skipSpace_cons hspace]
  simp only [if_neg hend, if_true]

theorem nextElement_next (hv : Blank v) (hw : Blank w) {b : UInt8} (hspace : isSpace b = false)
    (hend : b ≠ byte ']') (s : List UInt8) :
    nextElement false (v ++ byte ',' :: (w ++ b :: s)) = .ok (some (b :: s)) := by
  rw [nextElement, skipSpace_blank hv, skipSpace_cons (by decide)]
  simp only [skipSpace_blank hw, skipSpace_cons hspace, if_neg hend]
  rw [if_neg (by decide), if_neg (by decide), if_pos trivial]

theorem nextElement_end (hw : Blank w) (isFirst : Bool) (s : List UInt8) :
    nextElement isFirst (w ++ byte ']' :: s) = .ok none := by
  rw [nextElement, skipSpace_blank hw, skipSpace_cons (by decide)]
  simp only [if_true]

theorem endList_blank (hw : Blank w) (s : List UInt8) :
    endList (w ++ byte ']' :: s) = .ok s := by
  rw [endList, skipSpace_blank hw, skipSpace_cons (by decide)]
  simp only [if_true]

/-! ### Objects -/

theorem keyQuote_quote (s : List UInt8) : keyQuote (byte '"' :: s) = .ok s := by
  rw [keyQuote, if_pos rfl]

theorem nextKey_first (hw : Blank w) {key : String} {s rest : List UInt8}
    (h : string s = .ok (key, rest)) :
    nextKey true (w ++ byte '"' :: s) = .ok (some key, rest) := by
  rw [nextKey, skipSpace_blank hw, skipSpace_cons (by decide)]
  simp only [keyQuote_quote, bind, Except.bind, h]
  rw [if_neg (by decide), if_pos trivial]
  rfl

theorem nextKey_next (hv : Blank v) (hw : Blank w) {key : String} {s rest : List UInt8}
    (h : string s = .ok (key, rest)) :
    nextKey false (v ++ byte ',' :: (w ++ byte '"' :: s)) = .ok (some key, rest) := by
  have hspace : isSpace (byte '"') = false := by decide
  rw [nextKey, skipSpace_blank hv, skipSpace_cons (by decide)]
  simp only [skipSpace_blank hw, skipSpace_cons hspace, keyQuote_quote, bind, Except.bind, h]
  rfl

theorem nextKey_end (hw : Blank w) (isFirst : Bool) (s : List UInt8) :
    nextKey isFirst (w ++ byte '\x7d' :: s) = .ok (none, s) := by
  rw [nextKey, skipSpace_blank hw, skipSpace_cons (by decide)]
  simp only [if_true]

theorem colon_blank (hw : Blank w) (s : List UInt8) : colon (w ++ byte ':' :: s) = .ok s := by
  rw [colon, skipSpace_blank hw, skipSpace_cons (by decide)]
  simp only [if_true]

end LeaseKeeper.Json
