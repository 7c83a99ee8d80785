/-
Looking up, putting and removing entries of the tree.

* `get?_put_self`, `get?_put_of_ne`, `get?_erase_self`, `get?_erase_of_ne` — a change is seen
  at its own place and at no other;
* `erase_put` — an entry that was not there goes without a trace;
* `move_put` — a fresh entry that is moved leaves only its new place changed.
-/
import LeaseKeeper.FileSystem.Replace
import LeaseKeeper.Proofs.Except

namespace LeaseKeeper.FileSystem

variable {fs : FileSystem} {p q : Place} {n m : Node}

@[simp]
theorem get?_nil : fs.get? [] = some (.directory directoryMode) := rfl

theorem ne_nil_of_get?_eq_none (h : fs.get? p = none) : p ≠ [] := by
  rintro rfl
  cases h

theorem get?_put_self (hp : p ≠ []) : (fs.put p n).get? p = some n := by
  simp only [get?, if_neg hp, put, List.find?_cons, beq_self_eq_true, Option.map_some]

theorem find?_filter_ne (entries : List (Place × Node)) (h : q ≠ p) :
    (entries.filter fun entry => entry.1 != p).find? (fun entry => entry.1 == q) =
      entries.find? fun entry => entry.1 == q := by
  rw [List.find?_filter]
  congr 1
  funext entry
  by_cases hq : entry.1 = q
  · simp [hq, h]
  · simp [hq]

theorem get?_put_of_ne (h : q ≠ p) : (fs.put p n).get? q = fs.get? q := by
  have hp : (p == q) = false := beq_false_of_ne (Ne.symm h)
  simp only [get?, put, List.find?_cons, hp, find?_filter_ne _ h]

theorem get?_erase_of_ne (h : q ≠ p) : (fs.erase p).get? q = fs.get? q := by
  rw [get?, get?, erase, find?_filter_ne _ h]

theorem get?_erase_self (hp : p ≠ []) : (fs.erase p).get? p = none := by
  have hnone : (fs.entries.filter fun entry => entry.1 != p).find? (fun entry => entry.1 == p) =
      none := by
    rw [List.find?_eq_none]
    intro entry hentry
    have hne := (List.mem_filter.mp hentry).2
    simpa using hne
  rw [get?, if_neg hp, erase, hnone, Option.map_none]

/-- Nothing is removed at a place where nothing is. -/
theorem filter_ne_eq_self (h : fs.get? p = none) :
    (fs.entries.filter fun entry => entry.1 != p) = fs.entries := by
  have hp := ne_nil_of_get?_eq_none h
  rw [get?, if_neg hp, Option.map_eq_none_iff, List.find?_eq_none] at h
  rw [List.filter_eq_self]
  intro entry hentry
  have hne := h entry hentry
  simpa using hne

theorem erase_put (h : fs.get? p = none) : (fs.put p n).erase p = fs := by
  have hkept := filter_ne_eq_self h
  simp only [put, erase, List.filter_cons, bne_self_eq_false, Bool.false_eq_true, if_false, hkept]

theorem put_put : (fs.put p m).put p n = fs.put p n := by
  simp only [put, List.filter_cons, bne_self_eq_false, Bool.false_eq_true, if_false,
    List.filter_filter, Bool.and_self]

theorem move_put (h : fs.get? p = none) : (fs.put p n).move p q = fs.put q n := by
  -- the entry at `p` is taken away again before the one at `q` is put
  rw [move, get?_put_self (ne_nil_of_get?_eq_none h)]
  simp only [erase_put h]

end LeaseKeeper.FileSystem
