/-
IP addresses of both families, and ordered sets of them.

* `Address.ofText?`, `Address.toText` — reading and writing;
* `Address.rank` — the order: every IPv4 address before every IPv6 address, by number within
  a family;
* `ascending` — the addresses of a list, each once, in that order; `mem_ascending` and
  `ascending_pairwise` say so.
-/
import LeaseKeeper.Net.Ipv6

namespace LeaseKeeper

inductive Address where
  | v4 (a : Ipv4)
  | v6 (a : Ipv6)
  deriving DecidableEq, Repr

namespace Address

/-- The place of an address in the order of all addresses. -/
def rank : Address → Nat
  | .v4 a => a.bits.toNat
  | .v6 a => 0x100000000 + a.bits.toNat

theorem rank_injective {a b : Address} (h : a.rank = b.rank) : a = b := by
  cases a with
  | v4 a =>
    cases b with
    | v4 b =>
      obtain ⟨x⟩ := a
      obtain ⟨y⟩ := b
      exact congrArg (fun v => v4 ⟨v⟩) (BitVec.eq_of_toNat_eq h)
    | v6 b =>
      have := a.bits.isLt
      simp only [rank] at h
      omega
  | v6 a =>
    cases b with
    | v4 b =>
      have := b.bits.isLt
      simp only [rank] at h
      omega
    | v6 b =>
      obtain ⟨x⟩ := a
      obtain ⟨y⟩ := b
      exact congrArg (fun v => v6 ⟨v⟩) (BitVec.eq_of_toNat_eq (by simpa [rank] using h))

def ofChars? (s : List Char) : Option Address :=
  match Ipv4.ofText? s with
  | some a => some (.v4 a)
  | none => (Ipv6.ofText? s).map .v6

def ofText? (s : String) : Option Address := ofChars? s.toList

def toChars : Address → List Char
  | .v4 a => a.toChars
  | .v6 a => a.toChars

def toText (a : Address) : String := String.ofList a.toChars

instance : ToString Address := ⟨toText⟩

/-! ### Ordered sets -/

/-- Puts an address into an ascending list, unless it is there. -/
def insertAscending (a : Address) : List Address → List Address
  | [] => [a]
  | b :: bs =>
    if a.rank < b.rank then a :: b :: bs
    else if a = b then b :: bs
    else b :: insertAscending a bs

/-- The addresses of a list, each once, in ascending order. -/
def ascending (as : List Address) : List Address := as.foldr insertAscending []

@[simp] theorem mem_insertAscending {a x : Address} {bs : List Address} :
    x ∈ insertAscending a bs ↔ x = a ∨ x ∈ bs := by
  induction bs with
  | nil => simp [insertAscending]
  | cons b bs ih =>
    rw [insertAscending]
    split
    · simp
    · split
      · next h => simp [h]
      · simp only [List.mem_cons, ih]
        exact ⟨fun h => by rcases h with h | h | h <;> simp [h],
          fun h => by rcases h with h | h | h <;> simp [h]⟩

@[simp] theorem mem_ascending {x : Address} {as : List Address} : x ∈ ascending as ↔ x ∈ as := by
  induction as with
  | nil => simp [ascending]
  | cons a as ih =>
    rw [show ascending (a :: as) = insertAscending a (ascending as) from rfl]
    simp [ih]

theorem insertAscending_pairwise {a : Address} {bs : List Address}
    (h : bs.Pairwise (·.rank < ·.rank)) : (insertAscending a bs).Pairwise (·.rank < ·.rank) := by
  induction bs with
  | nil => simp [insertAscending]
  | cons b bs ih =>
    obtain ⟨hb, hbs⟩ := List.pairwise_cons.mp h
    rw [insertAscending]
    split
    · next hlt =>
      refine List.pairwise_cons.mpr ⟨fun x hx => ?_, h⟩
      rcases List.mem_cons.mp hx with rfl | hx
      · exact hlt
      · exact Nat.lt_trans hlt (hb x hx)
    · next hge =>
      split
      · exact h
      · next hne =>
        refine List.pairwise_cons.mpr ⟨fun x hx => ?_, ih hbs⟩
        rcases mem_insertAscending.mp hx with rfl | hx
        · exact Nat.lt_of_le_of_ne (Nat.le_of_not_lt hge) fun he => hne (rank_injective he.symm)
        · exact hb x hx

theorem ascending_pairwise (as : List Address) :
    (ascending as).Pairwise (·.rank < ·.rank) := by
  induction as with
  | nil => exact List.Pairwise.nil
  | cons a as ih => exact insertAscending_pairwise ih

end Address

end LeaseKeeper
