/-
By which address a request is judged.

* `Names` — the header names a client: its first `X-Forwarded-For` value is text and not blank;
* `forwarded?_eq_some_iff` — such a name is what is read off the header;
* `Effective` — the address that a request of a peer is judged by, or that there is none;
* `effective_iff` — it is the one that the service looks at;
* `isAdmitted_mapped` — an IPv4 peer and the same peer as a socket of the other family reports it.

Design notes: `Effective` is said in terms of the bytes of the header and of the texts that an
address has, and so without the reader that the service uses.
-/
import LeaseKeeper.Proofs.Http.Access
import LeaseKeeper.Proofs.Net.Private

namespace LeaseKeeper

namespace Http

variable {value : List UInt8} {headers : List Header} {peer a : Address} {name : List Char}
  {b : UInt8} {c : Option Address}

/-! ### The name in a header -/

theorem isFieldByte_of_isTextByte (h : isTextByte b = true) :
    isFieldByte b = true ∧ b < 0x80 := by
  rw [isTextByte, Bool.or_eq_true, Bool.and_eq_true, beq_iff_eq, decide_eq_true_eq,
    decide_eq_true_eq] at h
  rcases h with rfl | ⟨hlow, hhigh⟩
  · decide
  · have hsmall : b < 0x7f := UInt8.lt_of_le_of_lt hhigh (by decide)
    have hne : (b != 0x7f) = true := bne_iff_ne.mpr (UInt8.ne_of_lt hsmall)
    refine ⟨?_, UInt8.lt_trans hsmall (by decide)⟩
    rw [isFieldByte, decide_eq_true hlow, hne, Bool.true_and, Bool.or_true]

/-- A value of blanks alone leaves nothing. -/
theorem exists_visible (h : trimmed value ≠ []) : ∃ b ∈ value, isBlankByte b = false := by
  refine Classical.byContradiction fun hnone => h ?_
  have hblank : ∀ b ∈ value, isBlankByte b = true := by
    intro b hb
    cases hvisible : isBlankByte b with
    | true => rfl
    | false => exact absurd ⟨b, hb, hvisible⟩ hnone
  rw [trimmed, List.dropWhile_eq_nil_iff.mpr hblank]
  rfl

theorem headerText?_eq_some_iff {text : List Char} : headerText? value = some text ↔
    (∀ b ∈ value, isTextByte b = true) ∧ text = asciiText value := by
  rw [headerText?, ← List.all_eq_true]
  split
  · next hall => simp [hall, asciiText, eq_comm]
  · next hall => simp [hall]

/-- A header names a client if its first `X-Forwarded-For` value is text and not blank.  The name is
the text without the blanks at its ends. -/
def Names (headers : List Header) (name : List Char) : Prop :=
  ∃ value, headerValue? forwardedField headers = some value ∧
    (∀ b ∈ value, isTextByte b = true) ∧ (∃ b ∈ value, isBlankByte b = false) ∧
    name = asciiText (trimmed value)

theorem forwarded?_eq_some_iff : forwarded? headers = some name ↔ Names headers name := by
  constructor
  · intro h
    obtain ⟨value, hvalue, h⟩ := Option.bind_eq_some_iff.mp h
    obtain ⟨text, htext, h⟩ := Option.bind_eq_some_iff.mp h
    obtain ⟨hbytes, rfl⟩ := headerText?_eq_some_iff.mp htext
    rw [trim_asciiText (fun b hb => (isFieldByte_of_isTextByte (hbytes b hb)).1)
      fun b hb => (isFieldByte_of_isTextByte (hbytes b hb)).2] at h
    obtain ⟨hname, h⟩ := Option.ite_none_left_eq_some.mp h
    have hne : trimmed value ≠ [] := fun hnil => hname (congrArg asciiText hnil)
    exact ⟨value, hvalue, hbytes, exists_visible hne, (Option.some.inj h).symm⟩
  · rintro ⟨value, hvalue, htext, hvisible, rfl⟩
    exact forwarded?_eq_some hvalue (fun b hb => (isFieldByte_of_isTextByte (htext b hb)).1)
      (fun b hb => (isFieldByte_of_isTextByte (htext b hb)).2) hvisible

theorem forwarded?_eq_none_iff : forwarded? headers = none ↔ ∀ name, ¬Names headers name := by
  rw [Option.eq_none_iff_forall_ne_some]
  exact forall_congr' fun name => not_congr forwarded?_eq_some_iff

/-! ### The address that decides -/

/-- The address that a request is judged by.  It is that of the peer, unless the peer is on the
loopback interface and the header names a client; then it is the one that the name spells, and there
is none if it spells none. -/
inductive Effective (peer : Address) (headers : List Header) : Option Address → Prop
  | direct : (peer.isLoopback = true → ∀ name, ¬Names headers name) →
    Effective peer headers (some peer)
  | forwarded {name : List Char} {a : Address} : peer.isLoopback = true → Names headers name →
    Address.Spells name a → Effective peer headers (some a)
  | unreadable {name : List Char} : peer.isLoopback = true → Names headers name →
    (∀ a, ¬Address.Spells name a) → Effective peer headers none

namespace Client

/-- The address of a client, if it has one. -/
def address? : Client → Option Address
  | .address a => some a
  | .unknown _ => none

theorem isAdmitted_iff {client : Client} :
    client.isAdmitted = true ↔ ∃ a, client.address? = some a ∧ a.isPrivate = true := by
  cases client with
  | address a => simp [isAdmitted, address?]
  | unknown name => simp [isAdmitted, address?]

theorem address?_ofName_eq_some_iff :
    (ofName name).address? = some a ↔ Address.Spells name a := by
  rw [← Address.ofChars?_eq_some_iff, ofName]
  cases Address.ofChars? name with
  | none => simp [address?]
  | some b => simp [address?]

theorem ofPeer_direct (h : peer.isLoopback = true → ∀ name, ¬Names headers name) :
    ofPeer peer headers = .address peer := by
  rw [ofPeer]
  split
  · next hloopback => rw [forwarded?_eq_none_iff.mpr (h hloopback)]
  · rfl

theorem ofPeer_forwarded (hloopback : peer.isLoopback = true) (hname : Names headers name) :
    ofPeer peer headers = ofName name := by
  rw [ofPeer, if_pos hloopback, forwarded?_eq_some_iff.mpr hname]

end Client

theorem effective_ofPeer (peer : Address) (headers : List Header) :
    Effective peer headers (Client.ofPeer peer headers).address? := by
  by_cases h : peer.isLoopback = true ∧ ∃ name, Names headers name
  · obtain ⟨hloopback, name, hname⟩ := h
    rw [Client.ofPeer_forwarded hloopback hname]
    cases hread : (Client.ofName name).address? with
    | none =>
      refine .unreadable hloopback hname fun a ha => ?_
      rw [Client.address?_ofName_eq_some_iff.mpr ha] at hread
      cases hread
    | some a => exact .forwarded hloopback hname (Client.address?_ofName_eq_some_iff.mp hread)
  · have hdirect : peer.isLoopback = true → ∀ name, ¬Names headers name :=
      fun hloopback name hname => h ⟨hloopback, name, hname⟩
    rw [Client.ofPeer_direct hdirect]
    exact .direct hdirect

/-- A request is judged by exactly one address, or by none, and that is what the service does. -/
theorem effective_iff :
    Effective peer headers c ↔ (Client.ofPeer peer headers).address? = c := by
  constructor
  · intro h
    cases h with
    | direct hdirect => rw [Client.ofPeer_direct hdirect, Client.address?]
    | forwarded hloopback hname ha =>
      rw [Client.ofPeer_forwarded hloopback hname]
      exact Client.address?_ofName_eq_some_iff.mpr ha
    | unreadable hloopback hname hnone =>
      rw [Client.ofPeer_forwarded hloopback hname, Option.eq_none_iff_forall_ne_some]
      exact fun a ha => hnone a (Client.address?_ofName_eq_some_iff.mp ha)
  · rintro rfl
    exact effective_ofPeer peer headers

/-! ### The two spellings of a peer -/

theorem isLoopback_ofIpv4 (x : Ipv4) : (Address.v6 (.ofIpv4 x)).isLoopback = false := by
  rw [← Bool.not_eq_true, isLoopback_iff]
  rintro (⟨v4, hv4, -⟩ | hone)
  · cases hv4
  · -- The address ::1 is not IPv4-mapped.
    have hmapped := Ipv6.mapped?_ofIpv4 x
    rw [Address.v6.inj hone] at hmapped
    cases hmapped

theorem isPrivate_ofIpv4 (x : Ipv4) : (Address.v6 (.ofIpv4 x)).isPrivate = x.isPrivate := by
  rw [Address.isPrivate, Ipv6.mapped?_ofIpv4]

/-- **Both spellings of an IPv4 peer.**  A peer in its IPv4-mapped spelling is judged by its own
address, whatever client the header names.  So it is admitted whenever the same peer is admitted in
its plain spelling, and the two are treated alike, except if the peer is on the loopback interface
and speaks for a client that has no private address. -/
theorem isAdmitted_mapped (x : Ipv4) (headers : List Header) :
    let plain := Client.ofPeer (.v4 x) headers
    let mapped := Client.ofPeer (.v6 (.ofIpv4 x)) headers
    mapped.isAdmitted = x.isPrivate ∧
    (plain.isAdmitted = true → mapped.isAdmitted = true) ∧
    (plain.isAdmitted = mapped.isAdmitted ↔
      ((Address.v4 x).isLoopback = true → ∀ name, Names headers name →
        ∃ a, Address.Spells name a ∧ a.isPrivate = true)) := by
  intro plain mapped
  have hmapped : mapped.isAdmitted = x.isPrivate := by
    have hdirect : mapped = .address (.v6 (.ofIpv4 x)) :=
      Client.ofPeer_direct fun hloopback => absurd hloopback (by simp [isLoopback_ofIpv4])
    rw [hdirect]
    exact isPrivate_ofIpv4 x
  rw [hmapped]
  refine ⟨rfl, ?_⟩
  by_cases h : (Address.v4 x).isLoopback = true ∧ ∃ name, Names headers name
  · obtain ⟨hloopback, name, hname⟩ := h
    have hprivate : x.isPrivate = true := isPrivate_of_isLoopback hloopback
    have hplain : plain.isAdmitted = true ↔ ∃ a, Address.Spells name a ∧ a.isPrivate = true := by
      rw [show plain = Client.ofName name from Client.ofPeer_forwarded hloopback hname]
      exact isAdmitted_ofName
    refine ⟨fun _ => hprivate, ?_⟩
    rw [hprivate, hplain]
    refine ⟨fun hspells _ other hother => ?_, fun hall => hall hloopback name hname⟩
    -- A header names no more than one client.
    have hsame := (forwarded?_eq_some_iff.mpr hother).symm.trans (forwarded?_eq_some_iff.mpr hname)
    rw [Option.some.inj hsame]
    exact hspells
  · have hdirect : (Address.v4 x).isLoopback = true → ∀ name, ¬Names headers name :=
      fun hloopback name hname => h ⟨hloopback, name, hname⟩
    have hplain : plain.isAdmitted = x.isPrivate := by
      rw [show plain = .address (.v4 x) from Client.ofPeer_direct hdirect]
      rfl
    rw [hplain]
    refine ⟨id, iff_of_true rfl fun hloopback name hname => ?_⟩
    exact absurd hname (hdirect hloopback name)

/-- The peer 127.0.0.1 speaks for 8.8.8.8 and is refused, and the same peer is granted its request
if it is reported as ::ffff:127.0.0.1. -/
theorem isAdmitted_mapped_loopback :
    let r := passedOn [56, 46, 56, 46, 56, 46, 56]
    let mapped := { r with peer := some (.v6 (.ofIpv4 (.ofOctets 127 0 0 1))) }
    (respond ⟨[], .empty, .epoch, .empty⟩ r).status = 403 ∧
    (respond ⟨[], .empty, .epoch, .empty⟩ mapped).status = 200 := by
  intro r mapped
  obtain ⟨hmapped, -, halike⟩ := isAdmitted_mapped (.ofOctets 127 0 0 1) r.headers
  have hname : Names r.headers (asciiText [56, 46, 56, 46, 56, 46, 56]) :=
    ⟨_, headerValue?_passedOn _, List.all_eq_true.mp rfl, ⟨56, List.mem_cons_self, rfl⟩, rfl⟩
  have hrefused : ¬∃ a, Address.Spells (asciiText [56, 46, 56, 46, 56, 46, 56]) a ∧
      a.isPrivate = true := isAdmitted_ofName.not.mp (by decide)
  have hgranted := hmapped.trans (by decide : _ = true)
  rw [hgranted] at halike
  have hplain := Bool.eq_false_iff.mpr fun hplain => hrefused (halike.mp hplain rfl _ hname)
  rw [respond_status (.inl rfl) rfl rfl, respond_status (.inl rfl) rfl rfl, hplain, hgranted]
  exact ⟨rfl, rfl⟩

end Http

end LeaseKeeper
