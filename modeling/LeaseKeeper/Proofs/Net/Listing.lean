/-
Lists of addresses that stand for sets.

* `Lists` — a list holds the addresses with a property, each once and in ascending order;
* `Lists.eq` — there is one such list;
* `lists_ascending` — the list of the addresses that another list holds.
-/
import LeaseKeeper.Net.Address
import Mathlib.Data.List.Nodup

namespace LeaseKeeper

/-- The addresses with a property, each once and in ascending order. -/
structure Lists (as : List Address) (P : Address → Prop) : Prop where
  ascending : as.Pairwise (·.rank < ·.rank)
  mem_iff : ∀ a, a ∈ as ↔ P a

variable {as bs : List Address} {P Q : Address → Prop}

theorem Lists.filter (h : Lists as P) {f : Address → Bool} (hf : ∀ a, P a ∧ f a = true ↔ Q a) :
    Lists (as.filter f) Q where
  ascending := h.ascending.filter f
  mem_iff a := by rw [List.mem_filter, h.mem_iff, hf]

theorem Lists.congr (h : Lists as P) (hPQ : ∀ a, P a ↔ Q a) : Lists as Q where
  ascending := h.ascending
  mem_iff a := (h.mem_iff a).trans (hPQ a)

theorem Lists.nodup (h : Lists as P) : as.Nodup :=
  h.ascending.imp fun hlt heq => Nat.ne_of_lt hlt (congrArg Address.rank heq)

theorem Lists.eq (ha : Lists as P) (hb : Lists bs P) : as = bs := by
  have hperm : as.Perm bs := (List.perm_ext_iff_of_nodup ha.nodup hb.nodup).mpr fun a =>
    (ha.mem_iff a).trans (hb.mem_iff a).symm
  exact hperm.eq_of_pairwise (fun a b _ _ hab hba => absurd hba (Nat.lt_asymm hab))
    ha.ascending hb.ascending

theorem lists_ascending (as : List Address) : Lists (Address.ascending as) (· ∈ as) where
  ascending := Address.ascending_pairwise as
  mem_iff _ := Address.mem_ascending

end LeaseKeeper
