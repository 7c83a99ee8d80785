/-
For whom a peer on the loopback interface speaks.

* `trimmed` — the value of a header field without the blanks at its ends;
* `forwarded?_eq_some`, `forwarded?_eq_none` — the name that a value gives, if it is ASCII, and that
  it gives none otherwise;
* `isAdmitted_ofName` — a name is admitted if it is the text of a private address;
* `forwarded_status` — the response to a request for the leases whose peer is on the loopback
  interface;
* `forwarded_status_passedOn` — a value that is refused, and one that is not ASCII.
-/
import LeaseKeeper.Http.Service
import LeaseKeeper.Proofs.Net.Ipv6
import Mathlib.Data.List.TakeWhile

namespace LeaseKeeper

namespace Http

/-- The bytes of which the value of a header field can be made up. -/
def isFieldByte (b : UInt8) : Bool := b == 9 || (0x20 ≤ b && b != 0x7f)

/-- A tab or a space. -/
def isBlankByte (b : UInt8) : Bool := b == 9 || b == 0x20

/-- A value without the blanks at its ends. -/
def trimmed (value : List UInt8) : List UInt8 :=
  ((value.dropWhile isBlankByte).reverse.dropWhile isBlankByte).reverse

/-- Bytes as the characters with their numbers. -/
def asciiText (value : List UInt8) : List Char := value.map fun b => Char.ofNat b.toNat

variable {value : List UInt8} {headers : List Header} {b : UInt8}

/-! ### The name in a value -/

theorem isBlank_byte (h : isFieldByte b = true) (hascii : b < 0x80) :
    Text.isBlank (Char.ofNat b.toNat) = isBlankByte b := by
  have key : ∀ b : BitVec 8, isFieldByte ⟨b⟩ = true → (⟨b⟩ : UInt8) < 0x80 →
      Text.isBlank (Char.ofNat b.toNat) = isBlankByte ⟨b⟩ := by decide
  exact key b.toBitVec h hascii

theorem dropWhile_map {α β : Type} {p : β → Bool} {q : α → Bool} {f : α → β} {l : List α}
    (h : ∀ a ∈ l, p (f a) = q a) : (l.map f).dropWhile p = (l.dropWhile q).map f := by
  induction l with
  | nil => rfl
  | cons a l ih =>
    rw [List.map_cons, List.dropWhile_cons, List.dropWhile_cons, h a List.mem_cons_self,
      ih fun a ha => h a (List.mem_cons_of_mem _ ha)]
    split <;> rfl

theorem trim_asciiText (hfield : ∀ b ∈ value, isFieldByte b = true)
    (hascii : ∀ b ∈ value, b < 0x80) :
    Text.trim (asciiText value) = asciiText (trimmed value) := by
  have hblank : ∀ b ∈ value, Text.isBlank (Char.ofNat b.toNat) = isBlankByte b :=
    fun b hb => isBlank_byte (hfield b hb) (hascii b hb)
  have hrest : ∀ b ∈ (value.dropWhile isBlankByte).reverse,
      Text.isBlank (Char.ofNat b.toNat) = isBlankByte b := by
    intro b hb
    exact hblank b ((List.dropWhile_suffix isBlankByte).subset (List.mem_reverse.mp hb))
  rw [Text.trim, Text.trimEnd, asciiText, dropWhile_map hblank, ← List.map_reverse,
    dropWhile_map hrest, ← List.map_reverse]
  rfl

theorem trimmed_ne_nil (h : ∃ b ∈ value, isBlankByte b = false) : trimmed value ≠ [] := by
  obtain ⟨b, hb, hvisible⟩ := h
  have hstart : b ∈ value.dropWhile isBlankByte := Text.mem_dropWhile hvisible hb
  have hkept : b ∈ trimmed value :=
    List.mem_reverse.mpr (Text.mem_dropWhile hvisible (List.mem_reverse.mpr hstart))
  exact List.ne_nil_of_mem hkept

theorem isTextByte_iff (h : isFieldByte b = true) : isTextByte b = true ↔ b < 0x80 := by
  have key : ∀ b : BitVec 8, isFieldByte ⟨b⟩ = true →
      (isTextByte ⟨b⟩ = true ↔ (⟨b⟩ : UInt8) < 0x80) := by decide
  exact key b.toBitVec h

/-- A value that is ASCII gives the name that is left without its blanks. -/
theorem forwarded?_eq_some (hvalue : headerValue? forwardedField headers = some value)
    (hfield : ∀ b ∈ value, isFieldByte b = true) (hascii : ∀ b ∈ value, b < 0x80)
    (hvisible : ∃ b ∈ value, isBlankByte b = false) :
    forwarded? headers = some (asciiText (trimmed value)) := by
  have htext : headerText? value = some (asciiText value) := by
    refine if_pos (List.all_eq_true.mpr fun b hb => ?_)
    exact (isTextByte_iff (hfield b hb)).mpr (hascii b hb)
  have hname : asciiText (trimmed value) ≠ [] := fun hnil =>
    trimmed_ne_nil hvisible (List.map_eq_nil_iff.mp hnil)
  simp only [forwarded?, hvalue, htext, Option.bind_eq_bind, Option.bind_some,
    trim_asciiText hfield hascii, if_neg hname]

/-- A value that is not ASCII gives no name. -/
theorem forwarded?_eq_none (hvalue : headerValue? forwardedField headers = some value)
    (h : ∃ b ∈ value, 0x80 ≤ b) : forwarded? headers = none := by
  obtain ⟨b, hb, hlarge⟩ := h
  have htext : headerText? value = none := by
    refine if_neg fun hall => ?_
    have hbyte := List.all_eq_true.mp hall b hb
    have key : ∀ b : BitVec 8, (0x80 : UInt8) ≤ ⟨b⟩ → isTextByte ⟨b⟩ = false := by decide
    have hnot := key b.toBitVec hlarge
    rw [hbyte] at hnot
    cases hnot
  simp only [forwarded?, hvalue, htext, Option.bind_eq_bind, Option.bind_some, Option.bind_none]

/-! ### Who is admitted -/

theorem isAdmitted_ofName {name : List Char} :
    (Client.ofName name).isAdmitted = true ↔
      ∃ a, Address.Spells name a ∧ a.isPrivate = true := by
  rw [Client.ofName]
  split
  · next a ha =>
    refine ⟨fun h => ⟨a, Address.ofChars?_eq_some_iff.mp ha, h⟩, ?_⟩
    rintro ⟨b, hb, hprivate⟩
    rw [Address.ofChars?_eq_some_iff.mpr hb] at ha
    cases ha
    exact hprivate
  · next hnone =>
    refine iff_of_false Bool.false_ne_true ?_
    rintro ⟨b, hb, -⟩
    rw [Address.ofChars?_eq_some_iff.mpr hb] at hnone
    cases hnone

/-- The loopback addresses are those of 127.0.0.0/8, and ::1. -/
theorem isLoopback_iff {a : Address} : a.isLoopback = true ↔
    (∃ v4, a = .v4 v4 ∧ v4.bits.toNat >>> 24 = 127) ∨ a = .v6 ⟨1⟩ := by
  cases a with
  | v4 v4 =>
    have hbits := v4.bits.isLt
    have hoctet : v4.octet 3 = v4.bits.toNat >>> 24 := by
      rw [Ipv4.octet, Nat.shiftRight_eq_div_pow]
      omega
    simp [Address.isLoopback, hoctet]
  | v6 v6 =>
    obtain ⟨bits⟩ := v6
    simp [Address.isLoopback, BitVec.toNat_eq]

theorem isPrivate_of_isLoopback {a : Address} (h : a.isLoopback = true) : a.isPrivate = true := by
  rcases isLoopback_iff.mp h with ⟨v4, rfl, hnetwork⟩ | rfl
  · show Ipv4.isPrivate v4 = true
    rw [Ipv4.isPrivate, privateIpv4, List.any_cons, Bool.or_eq_true]
    exact .inl (beq_iff_eq.mpr hnetwork)
  · decide

variable {v : View} {r : Request} {peer : Address}

/-- Whether a request for the leases is granted depends on the client alone. -/
theorem respond_status (hmethod : r.method = .get ∨ r.method = .head)
    (hroute : Route.ofPath? (targetPath r.target) = some .status) (hpeer : r.peer = some peer) :
    (respond v r).status = if (Client.ofPeer peer r.headers).isAdmitted then 200 else 403 := by
  have hstatus : (statusResponse v r).status =
      if (Client.ofPeer peer r.headers).isAdmitted then 200 else 403 := by
    rw [statusResponse, hpeer]
    dsimp only
    split <;> rfl
  rw [← hstatus, respond, hroute]
  rcases hmethod with hmethod | hmethod
  · rw [hmethod]
    rfl
  · rw [hmethod]
    rfl

/-- **Requests that are passed on.**  A peer on the loopback interface asks for the leases, and the
first `X-Forwarded-For` field of the header has a value that is not blank.  If the value is ASCII,
the request is granted if it is, but for blanks at its ends, the text of a private address, and
refused in all other cases.  If it is not, the peer is judged in its place, and so the request is
granted. -/
theorem forwarded_status (v : View) (hmethod : r.method = .get ∨ r.method = .head)
    (hroute : Route.ofPath? (targetPath r.target) = some .status) (hpeer : r.peer = some peer)
    (hloopback : peer.isLoopback = true)
    (hvalue : headerValue? forwardedField r.headers = some value)
    (hfield : ∀ b ∈ value, isFieldByte b = true) (hvisible : ∃ b ∈ value, isBlankByte b = false) :
    ((∀ b ∈ value, b < 0x80) →
      ((respond v r).status = 200 ↔
        ∃ a, Address.Spells (asciiText (trimmed value)) a ∧ a.isPrivate = true) ∧
      ((respond v r).status = 403 ↔
        ¬∃ a, Address.Spells (asciiText (trimmed value)) a ∧ a.isPrivate = true)) ∧
    ((∃ b ∈ value, 0x80 ≤ b) → (respond v r).status = 200) := by
  rw [respond_status hmethod hroute hpeer, Client.ofPeer, if_pos hloopback]
  constructor
  · intro hascii
    rw [forwarded?_eq_some hvalue hfield hascii hvisible]
    show ((if (Client.ofName _).isAdmitted = true then 200 else 403) = 200 ↔ _) ∧ _
    rw [← isAdmitted_ofName]
    split
    · next hadmitted => simp [hadmitted]
    · next hadmitted => simp [hadmitted]
  · intro hlarge
    rw [forwarded?_eq_none hvalue hlarge]
    exact if_pos (isPrivate_of_isLoopback hloopback)

/-- A request of the peer 127.0.0.1 for the leases, with one value in its header. -/
def passedOn (value : List UInt8) : Request where
  method := .get
  target := ['/']
  peer := some (.v4 (.ofOctets 127 0 0 1))
  headers := [⟨"x-forwarded-for", value⟩]

theorem headerValue?_passedOn (value : List UInt8) :
    headerValue? forwardedField (passedOn value).headers = some value := by
  have hname : ("x-forwarded-for".toList.map Char.toLower == forwardedField) = true := by decide
  simp only [headerValue?, passedOn, List.find?_cons, hname, Option.map_some]

/-- The value ` 8.8.8.8` is refused, and a value of two bytes that are not ASCII is granted. -/
theorem forwarded_status_passedOn :
    (respond ⟨[], .empty, .epoch, .empty⟩ (passedOn [32, 56, 46, 56, 46, 56, 46, 56])).status =
      403 ∧
    (∃ b ∈ [0xc3, 0xa9], isBlankByte b = false) ∧ (∃ b ∈ [0xc3, 0xa9], (0x80 : UInt8) ≤ b) ∧
    (respond ⟨[], .empty, .epoch, .empty⟩ (passedOn [0xc3, 0xa9])).status = 200 := by
  have hread : Address.ofChars? (asciiText (trimmed [32, 56, 46, 56, 46, 56, 46, 56])) =
      some (.v4 (.ofOctets 8 8 8 8)) := by decide
  have hrefused : ¬∃ a, Address.Spells (asciiText (trimmed [32, 56, 46, 56, 46, 56, 46, 56])) a ∧
      a.isPrivate = true := by
    rintro ⟨a, ha, hprivate⟩
    rw [Address.ofChars?_eq_some_iff.mpr ha] at hread
    cases hread
    exact absurd hprivate (by decide)
  have hvisible : ∃ b ∈ [0xc3, 0xa9], isBlankByte b = false := ⟨0xc3, List.mem_cons_self, rfl⟩
  have hlarge : ∃ b ∈ [0xc3, 0xa9], (0x80 : UInt8) ≤ b := ⟨0xc3, List.mem_cons_self, by decide⟩
  have hascii := (forwarded_status ⟨[], .empty, .epoch, .empty⟩ (.inl rfl) rfl rfl rfl
    (headerValue?_passedOn [32, 56, 46, 56, 46, 56, 46, 56]) (List.all_eq_true.mp rfl)
    ⟨56, List.mem_cons_of_mem _ List.mem_cons_self, rfl⟩).1 (by simp)
  refine ⟨hascii.2.mpr hrefused, hvisible, hlarge, ?_⟩
  exact (forwarded_status ⟨[], .empty, .epoch, .empty⟩ (.inl rfl) rfl rfl rfl
    (headerValue?_passedOn [0xc3, 0xa9]) (List.all_eq_true.mp rfl) hvisible).2 hlarge

end Http

end LeaseKeeper
