/-
A sequence cut at its separators.

* `fields p s` — the pieces of `s` between the elements that satisfy `p`, in order; there is
  always one piece more than there are separators;
* `cut? pattern s` — what stands before and after the first place where `pattern` occurs;
* `mem_fields_not`, `fields_append_cons` — a piece holds no separator, and a separator
  divides the pieces of what is left of it from those of what is right of it.
-/

namespace LeaseKeeper.Text

variable {α : Type} {p : α → Bool}

/-- The pieces of `s` between the elements that satisfy `p`. -/
def fields (p : α → Bool) : List α → List (List α)
  | [] => [[]]
  | x :: s =>
    if p x then [] :: fields p s
    else
      match fields p s with
      | [] => [[x]]
      | piece :: pieces => (x :: piece) :: pieces

/-- The parts of `s` on both sides of the first place where `pattern` occurs. -/
def cut? [DecidableEq α] (pattern : List α) : List α → Option (List α × List α)
  | [] => if pattern = [] then some ([], []) else none
  | x :: s =>
    if pattern <+: x :: s then some ([], (x :: s).drop pattern.length)
    else (cut? pattern s).map fun (before, after) => (x :: before, after)

theorem fields_ne_nil (s : List α) : fields p s ≠ [] := by
  cases s with
  | nil => simp [fields]
  | cons x s =>
    unfold fields
    split
    · simp
    · split <;> simp

theorem fields_append_cons {a b : List α} {x : α} (hx : p x = true) :
    fields p (a ++ x :: b) = fields p a ++ fields p b := by
  induction a with
  | nil => simp [fields, hx]
  | cons y a ih =>
    rw [List.cons_append, fields, fields, ih]
    cases hy : p y with
    | true => simp
    | false =>
      cases hf : fields p a with
      | nil => exact absurd hf (fields_ne_nil a)
      | cons piece pieces => simp

theorem mem_fields_not {s piece : List α} (h : piece ∈ fields p s) : ∀ x ∈ piece, p x = false := by
  induction s generalizing piece with
  | nil =>
    obtain rfl : piece = [] := by simpa [fields] using h
    simp
  | cons y s ih =>
    rw [fields] at h
    cases hy : p y with
    | true =>
      simp only [hy, if_true, List.mem_cons] at h
      rcases h with rfl | h
      · simp
      · exact ih h
    | false =>
      cases hf : fields p s with
      | nil => exact absurd hf (fields_ne_nil s)
      | cons first rest =>
        simp only [hy, hf, Bool.false_eq_true, if_false, List.mem_cons] at h
        rcases h with rfl | h
        · simp only [List.mem_cons]
          rintro x (rfl | hx)
          · exact hy
          · exact ih (hf ▸ List.mem_cons_self) x hx
        · exact ih (hf ▸ List.mem_cons_of_mem first h)

end LeaseKeeper.Text
