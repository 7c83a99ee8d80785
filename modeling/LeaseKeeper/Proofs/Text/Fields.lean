/-
Sequences put together from pieces and cut again.

* `Joined`, `fields_eq_iff` — a sequence comes apart into the pieces without separators of which it
  is put together;
* `fields_intercalate` — the same if the separators are all alike;
* `intercalate_fields` — what comes apart can be put together again;
* `separated_induction` — what holds of a piece, and of two sequences with a separator between them,
  holds of all sequences;
* `exists_mem_fields` — whatever is no separator is in a piece;
* `Joined.map` — the same pieces with separators that have become alike;
* `mapM_eq_some_iff`, `ne_none_of_mapM` — all pieces can be read if each can;
* `eq_of_cut?`, `cut?_append_of_notMem`, `cut?_concat` — what stands before and after a pattern.
-/
import LeaseKeeper.Text.Fields
import Mathlib.Data.List.Forall2
import Mathlib.Data.List.TakeWhile

namespace LeaseKeeper.Text

variable {α : Type} {p : α → Bool}

theorem fields_of_forall_not {s : List α} (h : ∀ x ∈ s, p x = false) : fields p s = [s] := by
  induction s with
  | nil => rfl
  | cons x s ih =>
    have hx := h x List.mem_cons_self
    rw [fields, ih (fun y hy => h y (List.mem_cons_of_mem x hy))]
    simp [hx]

theorem fields_of_notMem [BEq α] [LawfulBEq α] {sep : α} {s : List α} (h : sep ∉ s) :
    fields (· == sep) s = [s] :=
  fields_of_forall_not fun _ hx => beq_false_of_ne fun heq => h (heq ▸ hx)

/-- A sequence that is put together from pieces, with single separators between them. -/
inductive Joined (p : α → Bool) : List (List α) → List α → Prop
  | last (piece : List α) : Joined p [piece] piece
  | more (piece : List α) {x : α} {pieces : List (List α)} {s : List α} : p x = true →
    Joined p pieces s → Joined p (piece :: pieces) (piece ++ x :: s)

theorem joined_fields (p : α → Bool) (s : List α) : Joined p (fields p s) s := by
  induction s with
  | nil => exact .last []
  | cons x s ih =>
    rw [fields]
    split
    · next hx => exact .more [] hx ih
    · split
      · next hnil => exact absurd hnil (fields_ne_nil s)
      · next piece pieces hs =>
        rw [hs] at ih
        cases ih with
        | last => exact .last (x :: s)
        | more _ hsep hrest => exact .more (x :: piece) hsep hrest

theorem fields_eq_iff {s : List α} {pieces : List (List α)} : fields p s = pieces ↔
    Joined p pieces s ∧ ∀ piece ∈ pieces, ∀ x ∈ piece, p x = false := by
  constructor
  · rintro rfl
    exact ⟨joined_fields p s, fun piece hpiece => mem_fields_not hpiece⟩
  · rintro ⟨hjoined, hpieces⟩
    induction hjoined with
    | last piece => exact fields_of_forall_not (hpieces piece List.mem_cons_self)
    | more piece hsep _ ih =>
      obtain ⟨hpiece, hrest⟩ := List.forall_mem_cons.mp hpieces
      rw [fields_append_cons hsep, fields_of_forall_not hpiece, ih hrest, List.singleton_append]

theorem Joined.mem {s piece : List α} {pieces : List (List α)} {x : α} (h : Joined p pieces s)
    (hpiece : piece ∈ pieces) (hx : x ∈ piece) : x ∈ s := by
  induction h with
  | last =>
    rw [← List.mem_singleton.mp hpiece]
    exact hx
  | more first _ _ ih =>
    rcases List.mem_cons.mp hpiece with rfl | hpiece
    · exact List.mem_append_left _ hx
    · exact List.mem_append_right _ (List.mem_cons_of_mem _ (ih hpiece))

theorem Joined.exists_mem {s : List α} {pieces : List (List α)} {x : α} (h : Joined p pieces s)
    (hx : x ∈ s) (hp : p x = false) : ∃ piece ∈ pieces, x ∈ piece := by
  induction h with
  | last piece => exact ⟨piece, List.mem_cons_self, hx⟩
  | @more first y pieces s hsep _ ih =>
    rcases List.mem_append.mp hx with hx | hx
    · exact ⟨first, List.mem_cons_self, hx⟩
    · rcases List.mem_cons.mp hx with rfl | hx
      · rw [hsep] at hp
        cases hp
      · obtain ⟨piece, hpiece, hmem⟩ := ih hx
        exact ⟨piece, List.mem_cons_of_mem first hpiece, hmem⟩

/-- Separators that become alike can be put between the pieces afterwards. -/
theorem Joined.map {β : Type} {f : α → β} {sep : β} {s : List α} {pieces : List (List α)}
    (h : Joined p pieces s) (hf : ∀ x, p x = true → f x = sep) :
    s.map f = List.intercalate [sep] (pieces.map (List.map f)) := by
  induction h with
  | last piece => rw [List.map_singleton, List.intercalate_singleton]
  | more piece hsep hrest ih =>
    rw [List.map_append, List.map_cons, hf _ hsep, ih]
    cases hrest with
    | last next => simp [List.intercalate_cons_cons]
    | more next _ _ => simp [List.intercalate_cons_cons]

theorem joined_intercalate {sep : α} (hsep : p sep = true) (piece : List α)
    (pieces : List (List α)) :
    Joined p (piece :: pieces) (List.intercalate [sep] (piece :: pieces)) := by
  induction pieces generalizing piece with
  | nil =>
    rw [List.intercalate_singleton]
    exact .last piece
  | cons next pieces ih =>
    rw [List.intercalate_cons_cons, List.append_assoc, List.singleton_append]
    exact .more piece hsep (ih next)

theorem fields_intercalate {sep : α} (hsep : p sep = true) {piece : List α}
    {pieces : List (List α)} (h : ∀ s ∈ piece :: pieces, ∀ x ∈ s, p x = false) :
    fields p (List.intercalate [sep] (piece :: pieces)) = piece :: pieces :=
  fields_eq_iff.mpr ⟨joined_intercalate hsep piece pieces, h⟩

theorem intercalate_fields [BEq α] [LawfulBEq α] (sep : α) (s : List α) :
    List.intercalate [sep] (fields (· == sep) s) = s := by
  induction s with
  | nil => rfl
  | cons x s ih =>
    have hne : fields (· == sep) s ≠ [] := fields_ne_nil s
    rw [fields]
    split
    · next hx =>
      obtain ⟨piece, pieces, hs⟩ := List.exists_cons_of_ne_nil hne
      rw [hs] at ih ⊢
      rw [List.intercalate_cons_cons, ih, eq_of_beq hx]
      rfl
    · split
      · next hnil => exact absurd hnil hne
      · next piece pieces hs =>
        rw [hs] at ih
        cases pieces with
        | nil =>
          rw [List.intercalate_singleton] at ih ⊢
          rw [ih]
        | cons next pieces =>
          rw [List.intercalate_cons_cons] at ih ⊢
          exact congrArg (x :: ·) ih

@[elab_as_elim]
theorem separated_induction (sep : α) {motive : List α → Prop}
    (piece : ∀ s, sep ∉ s → motive s)
    (append : ∀ s t, motive s → motive t → motive (s ++ sep :: t)) (s : List α) : motive s := by
  induction hn : s.length using Nat.strongRecOn generalizing s with
  | ind n ih =>
    by_cases h : sep ∈ s
    · obtain ⟨front, back, rfl⟩ := List.append_of_mem h
      rw [List.length_append, List.length_cons] at hn
      exact append front back (ih _ (by omega) front rfl) (ih _ (by omega) back rfl)
    · exact piece s h

theorem exists_mem_fields {s : List α} {x : α} (hx : x ∈ s) (hp : p x = false) :
    ∃ piece ∈ fields p s, x ∈ piece := (joined_fields p s).exists_mem hx hp

/-- What is dropped is only what satisfies the predicate. -/
theorem mem_dropWhile {s : List α} {x : α} (hp : p x = false) (hx : x ∈ s) : x ∈ s.dropWhile p := by
  rw [← List.takeWhile_append_dropWhile (p := p) (l := s)] at hx
  refine (List.mem_append.mp hx).resolve_left fun htaken => ?_
  rw [List.mem_takeWhile_imp htaken] at hp
  cases hp

theorem mapM_eq_some_iff {β : Type} {f : α → Option β} {s : List α} {ys : List β} :
    s.mapM f = some ys ↔ List.Forall₂ (fun x y => f x = some y) s ys := by
  induction s generalizing ys with
  | nil => cases ys <;> simp
  | cons a s ih =>
    simp only [List.mapM_cons, Option.pure_def, Option.bind_eq_bind, Option.bind_eq_some_iff, ih,
      Option.some.injEq]
    cases ys with
    | nil => simp
    | cons y ys => simp

theorem exists_of_mem_forall₂ {β : Type} {R : α → β → Prop} {s : List α} {ys : List β}
    (h : List.Forall₂ R s ys) {x : α} (hx : x ∈ s) : ∃ y, R x y := by
  induction h with
  | nil => cases hx
  | @cons a y s ys hy _ ih =>
    rcases List.mem_cons.mp hx with rfl | hx
    · exact ⟨y, hy⟩
    · exact ih hx

theorem exists_forall₂ {β : Type} {R : α → β → Prop} {s : List α} (h : ∀ x ∈ s, ∃ y, R x y) :
    ∃ ys, List.Forall₂ R s ys := by
  induction s with
  | nil => exact ⟨[], .nil⟩
  | cons x s ih =>
    obtain ⟨hx, hs⟩ := List.forall_mem_cons.mp h
    obtain ⟨y, hy⟩ := hx
    obtain ⟨ys, hys⟩ := ih hs
    exact ⟨y :: ys, .cons hy hys⟩

theorem ne_none_of_mapM {β : Type} {f : α → Option β} {s : List α} {ys : List β}
    (h : s.mapM f = some ys) {x : α} (hx : x ∈ s) : f x ≠ none := by
  obtain ⟨y, hy⟩ := exists_of_mem_forall₂ (mapM_eq_some_iff.mp h) hx
  rw [hy]
  exact nofun

/-! ### The first place of a pattern -/

section Cut

variable [DecidableEq α] {pattern s before after : List α} {x : α}

theorem eq_of_cut? (h : cut? pattern s = some (before, after)) :
    s = before ++ pattern ++ after := by
  induction s generalizing before with
  | nil =>
    rw [cut?] at h
    split at h
    · next hp =>
      cases h
      rw [hp]
      rfl
    · cases h
  | cons x s ih =>
    rw [cut?] at h
    split at h
    · next hp =>
      cases h
      obtain ⟨rest, hrest⟩ := hp
      rw [← hrest, List.drop_left, List.nil_append]
    · obtain ⟨⟨before', after'⟩, hcut, hsame⟩ := Option.map_eq_some_iff.mp h
      cases hsame
      rw [ih hcut]
      rfl

theorem cut?_eq_none (h : ¬pattern <:+: s) : cut? pattern s = none := by
  induction s with
  | nil =>
    rw [cut?, if_neg]
    rintro rfl
    exact h (List.nil_infix)
  | cons x s ih =>
    have hp : ¬pattern <+: x :: s := fun hp => h hp.isInfix
    rw [cut?, if_neg hp, ih fun hs => h (List.infix_cons hs)]
    rfl

theorem exists_cut?_of_infix (h : pattern <:+: s) :
    ∃ before after, cut? pattern s = some (before, after) := by
  induction s with
  | nil => exact ⟨[], [], if_pos (List.infix_nil.mp h)⟩
  | cons x s ih =>
    rw [cut?]
    split
    · exact ⟨[], _, rfl⟩
    · next hstart =>
      obtain ⟨before, after, hcut⟩ := ih ((List.infix_cons_iff.mp h).resolve_left hstart)
      exact ⟨x :: before, after, by rw [hcut]; rfl⟩

/-- A pattern does not begin where its first element does not stand. -/
theorem cut?_append_of_notMem {front : List α} (h : x ∉ front) (pattern t : List α) :
    cut? (x :: pattern) (front ++ t) =
      (cut? (x :: pattern) t).map fun (before, after) => (front ++ before, after) := by
  induction front with
  | nil =>
    rw [List.nil_append]
    exact Option.map_id'.symm
  | cons y front ih =>
    rw [List.mem_cons, not_or] at h
    have hstart : ¬x :: pattern <+: y :: (front ++ t) :=
      fun hp => h.1 (List.cons_prefix_cons.mp hp).1
    rw [List.cons_append, cut?, if_neg hstart, ih h.2, Option.map_map]
    rfl

theorem cut?_append_cons {front : List α} (h : x ∉ front) (pattern back : List α) :
    cut? (x :: pattern) (front ++ (x :: pattern ++ back)) = some (front, back) := by
  have hhere : cut? (x :: pattern) (x :: pattern ++ back) = some ([], back) := by
    rw [List.cons_append, cut?, if_pos ⟨back, rfl⟩, ← List.cons_append, List.drop_left]
  rw [cut?_append_of_notMem h, hhere]
  show some (front ++ [], back) = some (front, back)
  rw [List.append_nil]

theorem cut?_concat (hne : pattern ≠ []) (hx : x ∉ pattern) (s : List α) :
    cut? pattern (s ++ [x]) =
      (cut? pattern s).map fun (before, after) => (before, after ++ [x]) := by
  have hstarts (t : List α) : pattern <+: t ++ [x] ↔ pattern <+: t := by
    rw [List.prefix_concat_iff]
    refine or_iff_right fun h => hx ?_
    rw [h]
    exact List.mem_append_right _ List.mem_cons_self
  induction s with
  | nil =>
    have hnot : ¬pattern <+: [x] := fun h => hne (List.prefix_nil.mp ((hstarts []).mp h))
    rw [List.nil_append, cut?, cut?, if_neg hnot, if_neg hne, cut?, if_neg hne]
    rfl
  | cons y s ih =>
    have hstart := hstarts (y :: s)
    rw [List.cons_append] at hstart ⊢
    rw [cut?, cut?]
    by_cases h : pattern <+: y :: s
    · rw [if_pos (hstart.mpr h), if_pos h, ← List.cons_append,
        List.drop_append_of_le_length h.length_le]
      rfl
    · rw [if_neg (mt hstart.mp h), if_neg h, ih, Option.map_map, Option.map_map]
      rfl

end Cut

end LeaseKeeper.Text
