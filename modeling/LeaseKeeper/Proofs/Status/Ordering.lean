/-
The order in which leases are shown.

* `StablyOrdered` — a list ordered by a key, in which entries with the same key stand as before;
* `stablyOrdered_mergeSort` — sorting gives such a list;
* `expiresNoEarlier_iff` — leases are compared by the keys of their expiries, those without one
  last;
* `ofLeases_ordered` — what the page shows, and in which order.
-/
import LeaseKeeper.Proofs.Time.Order
import LeaseKeeper.StatusPage

namespace LeaseKeeper

/-- `l` holds the entries of `s`, each as often as `s` does, ordered by their keys; those that have
the same key stand in `l` as they stand in `s`. -/
structure StablyOrdered {α κ : Type} [DecidableEq κ] (key : α → κ) (precedes : κ → κ → Prop)
    (s l : List α) : Prop where
  perm : l.Perm s
  ordered : l.Pairwise fun a b => precedes (key a) (key b)
  ties : ∀ k, l.filter (key · = k) = s.filter (key · = k)

section Sorting

variable {α κ : Type} [DecidableEq κ] {key : α → κ} {precedes : κ → κ → Prop} {le : α → α → Bool}
  (htrans : ∀ a b c, le a b = true → le b c = true → le a c = true)
  (htotal : ∀ a b, (le a b || le b a) = true) (htie : ∀ a b, key a = key b → le a b = true)

include htrans htotal htie

theorem filter_mergeSort (s : List α) (k : κ) :
    (s.mergeSort le).filter (key · = k) = s.filter (key · = k) := by
  -- Entries that tie are sorted already, so sorting keeps them as a part of the list.
  have htied : (s.filter (key · = k)).Pairwise fun a b => le a b = true := by
    refine List.pairwise_of_forall_mem_list fun a ha b hb => htie a b ?_
    rw [of_decide_eq_true (List.mem_filter.mp ha).2, of_decide_eq_true (List.mem_filter.mp hb).2]
  have hkept := (List.sublist_mergeSort htrans htotal htied List.filter_sublist).filter (key · = k)
  rw [List.filter_filter, List.filter_congr fun a _ => Bool.and_self (decide (key a = k))] at hkept
  exact (hkept.eq_of_length ((List.mergeSort_perm s le).filter _).length_eq.symm).symm

theorem stablyOrdered_mergeSort
    (hprecedes : ∀ a b, le a b = true → precedes (key a) (key b)) (s : List α) :
    StablyOrdered key precedes s (s.mergeSort le) where
  perm := List.mergeSort_perm s le
  ordered := (List.pairwise_mergeSort htrans htotal s).imp fun h => hprecedes _ _ h
  ties := filter_mergeSort htrans htotal htie s

end Sorting

theorem Lease.isStatic_eq (l : Lease) : l.isStatic = decide (l.expiry = none) := by
  rw [isStatic]
  cases l.expiry <;> rfl

namespace LeaseSet

/-! ### Static leases -/

theorem stablyOrdered_orderedStatic (s : LeaseSet) :
    StablyOrdered Lease.ordinal (· ≤ ·) (s.filter (·.expiry = none)) s.orderedStatic := by
  have hstatic : s.filter Lease.isStatic = s.filter (·.expiry = none) :=
    List.filter_congr fun l _ => l.isStatic_eq
  rw [orderedStatic, hstatic]
  refine stablyOrdered_mergeSort (fun a b c hab hbc => ?_) (fun a b => ?_) (fun a b h => ?_)
    (fun a b h => of_decide_eq_true h) _
  · exact decide_eq_true (Int64.le_trans (of_decide_eq_true hab) (of_decide_eq_true hbc))
  · simpa using Int64.le_total a.ordinal b.ordinal
  · exact decide_eq_true (h ▸ Int64.le_refl _)

/-! ### Dynamic leases -/

theorem expiresNoEarlier_iff (a b : Lease) :
    expiresNoEarlier a b = true ↔ ∀ u ∈ b.expiry, ∃ t ∈ a.expiry, u.key ≤ t.key := by
  rw [expiresNoEarlier]
  cases b.expiry with
  | none => cases a.expiry <;> simp
  | some u =>
    cases a.expiry with
    | none => simp
    | some t => simpa using Instant.reached_iff

/-- The latest expiry comes first. -/
theorem stablyOrdered_orderedDynamic (s : LeaseSet) :
    StablyOrdered Lease.expiry (fun x y => ∀ t ∈ x, ∀ u ∈ y, u.key ≤ t.key)
      (s.filter (·.expiry ≠ none)) s.orderedDynamic := by
  have hdynamic : (s.filter fun l => !l.isStatic) = s.filter (·.expiry ≠ none) :=
    List.filter_congr fun l _ => by rw [l.isStatic_eq, decide_not]
  rw [orderedDynamic, hdynamic]
  refine stablyOrdered_mergeSort (fun a b c hab hbc => ?_) (fun a b => ?_) (fun a b h => ?_)
    (fun a b h t ht u hu => ?_) _
  · rw [expiresNoEarlier_iff] at *
    intro v hv
    obtain ⟨u, hu, hvu⟩ := hbc v hv
    obtain ⟨t, ht, hut⟩ := hab u hu
    exact ⟨t, ht, hvu.trans hut⟩
  · rw [Bool.or_eq_true, expiresNoEarlier_iff, expiresNoEarlier_iff]
    cases a.expiry with
    | none => exact .inr nofun
    | some t =>
      cases b.expiry with
      | none => exact .inl nofun
      | some u => simpa using le_total u.key t.key
  · rw [expiresNoEarlier_iff, h]
    exact fun u hu => ⟨u, hu, le_rfl⟩
  · obtain ⟨t', ht', hle⟩ := (expiresNoEarlier_iff a b).mp h u hu
    obtain rfl : t = t' := Option.some.inj (ht.symm.trans ht')
    exact hle

/-! ### The page -/

theorem perm_ordered (s : LeaseSet) : (s.orderedStatic ++ s.orderedDynamic).Perm s :=
  ((List.mergeSort_perm _ _).append (List.mergeSort_perm _ _)).trans
    (List.filter_append_perm Lease.isStatic s)

end LeaseSet

/-- **What the page shows, and in which order.**  The static leases of a set come in ascending
ordinal and the dynamic ones with the latest expiry first, by seconds and then by nanoseconds;
leases with the same ordinal, or the same expiry, stand as they are stored.  Together they are the
leases of the set, each as often as it is in there.  Which lease stands where depends neither on the
clock nor on the vendors, and as many are shown as not expired as there are in force. -/
theorem ofLeases_ordered (s : LeaseSet) : ∃ fixed lent : List Lease,
    StablyOrdered Lease.ordinal (· ≤ ·) (s.filter (·.expiry = none)) fixed ∧
    StablyOrdered Lease.expiry (fun x y => ∀ t ∈ x, ∀ u ∈ y,
      toLex (u.seconds, u.nanos) ≤ toLex (t.seconds, t.nanos)) (s.filter (·.expiry ≠ none)) lent ∧
    (fixed ++ lent).Perm s ∧
    ∀ (vendors : VendorTable) (now : Instant),
      let page := StatusPage.ofLeases s vendors now
      page.staticLeases = fixed.map (LeaseRow.ofLease vendors now) ∧
      page.dynamicLeases = lent.map (LeaseRow.ofLease vendors now) ∧
      (page.staticLeases ++ page.dynamicLeases).countP (fun row => !row.expired) =
        s.countInForce now := by
  refine ⟨s.orderedStatic, s.orderedDynamic, s.stablyOrdered_orderedStatic,
    s.stablyOrdered_orderedDynamic, s.perm_ordered, fun vendors now => ⟨rfl, rfl, ?_⟩⟩
  rw [StatusPage.ofLeases, ← List.map_append, List.countP_map]
  exact s.perm_ordered.countP_eq _

end LeaseKeeper
