/-
Which processes a notification signals, and what it reports.

`SignalTarget.Means` says for itself when an entry of the process directory is meant, and as which
number; `SignalTarget.Reports` says what is to be reported of the attempts to signal processes.

* `match?_eq_some_iff` — the entries that are found are those that are meant;
* `processes_perm` — in which order the directory is listed makes no difference;
* `signalled_foldl`, `reports_foldl` — every process is tried, and the last failure is kept;
* `notify_reports` — what is signalled, and what is reported, for any listing;
* `signalled_alone` — when only single processes are signalled, and none of them twice.

Design notes: a number may be written in many ways, with a sign or with leading zeros.  So neither
are the numbers that are read from names always those of processes, nor are those of two entries
always different.
-/
import LeaseKeeper.Notification.SignalTarget
import LeaseKeeper.Proofs.Text.Integers
import LeaseKeeper.Proofs.Text.Lines
import Mathlib.Data.List.Induction
import Mathlib.Data.List.TakeWhile

namespace LeaseKeeper

open Text.Utf8 (encode)

variable {name : List UInt8} {pid : Int} {entry : ProcessEntry} {n : SignalTarget}
  {entries others : List ProcessEntry} {kill : Int → Except KillFailure Unit} {pids : List Int}

/-! ### Entries -/

/-- Digits and signs are ASCII characters. -/
theorem ascii_of_spellsInteger {text : List Char} (h : Text.SpellsInteger text pid) :
    ∀ c ∈ text, 0 < c.toNat ∧ c.toNat < 0x80 := by
  have hnatural {s : List Char} {k : Nat} (hs : Text.SpellsNatural s k) :
      ∀ c ∈ s, 0 < c.toNat ∧ c.toNat < 0x80 := by
    intro c hc
    have hrange := Text.toNat_isDigit (hs.digits c hc)
    omega
  cases h with
  | bare h => exact hnatural h
  | plus h => exact List.forall_mem_cons.mpr ⟨by decide, hnatural h⟩
  | minus h => exact List.forall_mem_cons.mpr ⟨by decide, hnatural h⟩

/-- The name of a process is a text of its number, which has at most 32 bits. -/
theorem pid?_eq_some_iff : pid? name = some pid ↔
    (∃ text, name = encode text ∧ Text.SpellsInteger text pid) ∧
      -0x80000000 ≤ pid ∧ pid ≤ 0x7FFFFFFF := by
  simp only [pid?, Option.bind_eq_bind, Option.bind_eq_some_iff, toOption_eq_some_iff,
    Text.signedNumber_eq_ok_iff]
  constructor
  · rintro ⟨text, htext, k, ⟨hk, -⟩, hrange⟩
    split at hrange
    · next hbits =>
      obtain rfl := Option.some.inj hrange
      exact ⟨⟨text, Text.Utf8.eq_encode_of_decode? htext (ascii_of_spellsInteger hk), hk⟩, hbits⟩
    · cases hrange
  · rintro ⟨⟨text, rfl, htext⟩, hbits⟩
    exact ⟨text, Text.Utf8.decode?_encode text, pid, ⟨htext, by omega⟩, if_pos hbits⟩

/-- What stands before the first NUL, or before the end if there is none, is the first argument. -/
theorem firstArgument_eq_iff {commandLine argument : List UInt8} :
    firstArgument commandLine = argument ↔
      0 ∉ argument ∧ (commandLine = argument ∨ argument ++ [0] <+: commandLine) := by
  rw [firstArgument]
  constructor
  · rintro rfl
    have hzero : 0 ∉ commandLine.takeWhile (· ≠ 0) := by
      intro hmem
      have hne := List.mem_takeWhile_imp hmem
      exact absurd hne (by decide)
    refine ⟨hzero, ?_⟩
    have hsplit := List.takeWhile_append_dropWhile (p := fun b : UInt8 => b ≠ 0) (l := commandLine)
    cases hrest : commandLine.dropWhile (· ≠ 0) with
    | nil =>
      rw [hrest, List.append_nil] at hsplit
      exact .inl hsplit.symm
    | cons b rest =>
      have hzero := List.head?_dropWhile_not (fun b : UInt8 => b ≠ 0) commandLine
      rw [hrest] at hzero
      obtain rfl : b = 0 := by simpa using hzero
      refine .inr ⟨rest, ?_⟩
      rw [List.append_assoc, List.singleton_append, ← hrest, hsplit]
  · rintro ⟨hzero, hends⟩
    have hall : ∀ b ∈ argument, decide (b ≠ 0) = true := by
      intro b hb
      exact decide_eq_true fun h => hzero (h ▸ hb)
    rcases hends with rfl | ⟨rest, rfl⟩
    · exact List.takeWhile_eq_self_iff.mpr hall
    · rw [List.append_assoc, List.takeWhile_append_of_pos hall]
      exact List.append_nil _

namespace SignalTarget

/-- An entry is meant, as the process `pid`: its name is a text of that number, which has at most
32 bits, and its command line can be read and begins with the configured name, up to a NUL or to the
end. -/
structure Means (n : SignalTarget) (entry : ProcessEntry) (pid : Int) : Prop where
  named : ∃ text, entry.name = encode text ∧ Text.SpellsInteger text pid
  range : -0x80000000 ≤ pid ∧ pid ≤ 0x7FFFFFFF
  runs : ∃ commandLine, entry.commandLine? = some commandLine ∧ 0 ∉ encode n.name.toList ∧
    (commandLine = encode n.name.toList ∨ encode n.name.toList ++ [0] <+: commandLine)

theorem match?_eq_some_iff : n.match? entry = some pid ↔ n.Means entry pid := by
  simp only [match?, Option.bind_eq_bind, Option.bind_eq_some_iff, firstArgument_eq_iff]
  constructor
  · rintro ⟨k, hk, commandLine, hread, hfirst⟩
    split at hfirst
    · next hruns =>
      obtain rfl := Option.some.inj hfirst
      obtain ⟨hnamed, hrange⟩ := pid?_eq_some_iff.mp hk
      exact ⟨hnamed, hrange, commandLine, hread, hruns⟩
    · cases hfirst
  · rintro ⟨hnamed, hrange, commandLine, hread, hruns⟩
    exact ⟨pid, pid?_eq_some_iff.mpr ⟨hnamed, hrange⟩, commandLine, hread, if_pos hruns⟩

instance (n : SignalTarget) (entry : ProcessEntry) (pid : Int) : Decidable (n.Means entry pid) :=
  decidable_of_iff (n.match? entry = some pid) match?_eq_some_iff

/-! ### The processes that are meant -/

theorem processes_sorted (n : SignalTarget) (entries : List ProcessEntry) :
    (n.processes entries).Pairwise (· ≤ ·) := by
  have htrans (a b c : Int) (hab : decide (a ≤ b) = true) (hbc : decide (b ≤ c) = true) :
      decide (a ≤ c) = true :=
    decide_eq_true (Int.le_trans (of_decide_eq_true hab) (of_decide_eq_true hbc))
  have htotal (a b : Int) : (decide (a ≤ b) || decide (b ≤ a)) = true := by
    simpa using Int.le_total a b
  exact (List.pairwise_mergeSort htrans htotal _).imp of_decide_eq_true

theorem processes_perm_filterMap (n : SignalTarget) (entries : List ProcessEntry) :
    (n.processes entries).Perm (entries.filterMap n.match?) := List.mergeSort_perm _ _

theorem processes_eq_of_perm (hperm : pids.Perm (entries.filterMap n.match?))
    (hsorted : pids.Pairwise (· ≤ ·)) : n.processes entries = pids :=
  ((n.processes_perm_filterMap entries).trans hperm.symm).eq_of_pairwise
    (fun _ _ _ _ => Int.le_antisymm) (n.processes_sorted entries) hsorted

/-- In which order the directory is listed makes no difference. -/
theorem processes_perm (h : others.Perm entries) : n.processes others = n.processes entries :=
  processes_eq_of_perm ((n.processes_perm_filterMap entries).trans (h.filterMap _).symm)
    (n.processes_sorted entries)

theorem count_processes (n : SignalTarget) (entries : List ProcessEntry) (pid : Int) :
    (n.processes entries).count pid = entries.countP (n.Means · pid) := by
  rw [(n.processes_perm_filterMap entries).count_eq, List.count_filterMap]
  refine List.countP_congr fun entry _ => ?_
  rw [beq_iff_eq, decide_eq_true_iff, match?_eq_some_iff]

theorem mem_processes_iff : pid ∈ n.processes entries ↔ ∃ entry ∈ entries, n.Means entry pid := by
  rw [(n.processes_perm_filterMap entries).mem_iff, List.mem_filterMap]
  simp only [match?_eq_some_iff]

/-! ### Attempts -/

theorem result_attempt_ok (a : Attempt) (h : kill pid = .ok ()) :
    (n.attempt kill a pid).result = a.result := by
  rw [attempt, h]

theorem result_attempt_error (a : Attempt) {e : KillFailure} (h : kill pid = .error e) :
    (n.attempt kill a pid).result = .error (.notSent n.signal n.name pid e) := by
  rw [attempt, h]

theorem signalled_foldl (a : Attempt) :
    (pids.foldl (n.attempt kill) a).signalled = a.signalled ++ pids := by
  induction pids generalizing a with
  | nil => exact (List.append_nil _).symm
  | cons pid pids ih =>
    rw [List.foldl_cons, ih]
    show a.signalled ++ [pid] ++ pids = a.signalled ++ pid :: pids
    rw [List.append_assoc, List.singleton_append]

/-- What is to be reported of the attempts to signal processes: that there are none, that all have
been signalled, or else the failure of the one with the greatest number. -/
inductive Reports (n : SignalTarget) (kill : Int → Except KillFailure Unit) (pids : List Int) :
    Except SignalError Unit → Prop
  | missing : pids = [] → Reports n kill pids (.error (.processNotFound n.name))
  | sent : pids ≠ [] → (∀ pid ∈ pids, kill pid = .ok ()) → Reports n kill pids (.ok ())
  | failed {pid : Int} {e : KillFailure} : pid ∈ pids → kill pid = .error e →
    (∀ later ∈ pids, pid < later → kill later = .ok ()) →
    Reports n kill pids (.error (.notSent n.signal n.name pid e))

theorem Reports.unique {result result' : Except SignalError Unit} (h : n.Reports kill pids result)
    (h' : n.Reports kill pids result') : result = result' := by
  cases h with
  | missing hnone =>
    subst hnone
    cases h' with
    | missing => rfl
    | sent hne => exact absurd rfl hne
    | failed hmem => cases hmem
  | sent hne hsent =>
    cases h' with
    | missing hnone => exact absurd hnone hne
    | sent => rfl
    | failed hmem hfail =>
      rw [hsent _ hmem] at hfail
      cases hfail
  | @failed pid e hmem hfail hlater =>
    cases h' with
    | missing hnone =>
      subst hnone
      cases hmem
    | sent _ hsent =>
      rw [hsent _ hmem] at hfail
      cases hfail
    | @failed pid' e' hmem' hfail' hlater' =>
      -- Neither of the two can be the greater one.
      obtain rfl : pid = pid' := by
        rcases Int.lt_trichotomy pid pid' with hlt | heq | hlt
        · rw [hlater _ hmem' hlt] at hfail'
          cases hfail'
        · exact heq
        · rw [hlater' _ hmem hlt] at hfail
          cases hfail
      rw [hfail] at hfail'
      cases hfail'
      rfl

/-- A failure takes the place of the ones before it, and so the last one is kept. -/
theorem reports_foldl (hsorted : pids.Pairwise (· ≤ ·)) (hne : pids ≠ []) :
    n.Reports kill pids (pids.foldl (n.attempt kill) ⟨.ok (), []⟩).result := by
  induction pids using List.reverseRecOn with
  | nil => exact absurd rfl hne
  | append_singleton pids last ih =>
    obtain ⟨hfront, -, hlast⟩ := List.pairwise_append.mp hsorted
    rw [List.foldl_append, List.foldl_cons, List.foldl_nil]
    have hmem : last ∈ pids ++ [last] := List.mem_append_right _ List.mem_cons_self
    cases hkill : kill last with
    | error e =>
      rw [result_attempt_error _ hkill]
      refine .failed hmem hkill fun later hlater hlt => ?_
      have hle : later ≤ last := by
        rcases List.mem_append.mp hlater with hlater | hlater
        · exact hlast later hlater last List.mem_cons_self
        · exact Int.le_of_eq (List.mem_singleton.mp hlater)
      omega
    | ok u =>
      rw [result_attempt_ok _ hkill]
      have hall {p : Int → Prop} (hpids : ∀ pid ∈ pids, p pid) (hp : p last) :
          ∀ pid ∈ pids ++ [last], p pid :=
        List.forall_mem_append.mpr ⟨hpids, List.forall_mem_singleton.mpr hp⟩
      by_cases hnil : pids = []
      · subst hnil
        exact .sent hne (hall (List.forall_mem_nil _) hkill)
      · have hreport := ih hfront hnil
        generalize (pids.foldl (n.attempt kill) ⟨.ok (), []⟩).result = result at hreport ⊢
        cases hreport with
        | missing hnone => exact absurd hnone hnil
        | sent _ hsent => exact .sent hne (hall hsent hkill)
        | failed hfailed hfail hlater =>
          exact .failed (List.mem_append_left _ hfailed) hfail (hall hlater fun _ => hkill)

theorem notify_of_ne_nil (path : String) (hne : n.processes entries ≠ []) :
    n.notify path (.ok entries) kill =
      (n.processes entries).foldl (n.attempt kill) ⟨.ok (), []⟩ := by
  rw [notify]
  split
  · next hnil => exact absurd hnil hne
  · rfl

theorem notify_of_eq_nil (path : String) (hnil : n.processes entries = []) :
    n.notify path (.ok entries) kill = ⟨.error (.processNotFound n.name), []⟩ := by
  rw [notify, hnil]

theorem signalled_notify (n : SignalTarget) (path : String) (entries : List ProcessEntry)
    (kill : Int → Except KillFailure Unit) :
    (n.notify path (.ok entries) kill).signalled = n.processes entries := by
  by_cases hnil : n.processes entries = []
  · rw [n.notify_of_eq_nil path hnil, hnil]
  · rw [n.notify_of_ne_nil path hnil, signalled_foldl]
    rfl

theorem reports_notify (n : SignalTarget) (path : String) (entries : List ProcessEntry)
    (kill : Int → Except KillFailure Unit) :
    n.Reports kill (n.processes entries) (n.notify path (.ok entries) kill).result := by
  by_cases hnil : n.processes entries = []
  · rw [n.notify_of_eq_nil path hnil]
    exact .missing hnil
  · rw [n.notify_of_ne_nil path hnil]
    exact reports_foldl (n.processes_sorted entries) hnil

/-- **Whom a notification signals, and what it reports.**  The processes that are found are those
that are meant, in ascending order, each as often as entries mean it; it makes no difference how
the directory is listed.  The signal is tried on every one of them, whichever attempts fail, and
what is reported is exactly this: that there is no process if there is none, success if all
attempts succeed, and otherwise the failure of the greatest process whose attempt fails. -/
theorem notify_reports (n : SignalTarget) (path : String) (entries : List ProcessEntry)
    (kill : Int → Except KillFailure Unit) :
    let pids := n.processes entries
    let attempt := n.notify path (.ok entries) kill
    pids.Pairwise (· ≤ ·) ∧
    (∀ pid, pids.count pid = entries.countP (n.Means · pid)) ∧
    (∀ others, others.Perm entries →
      n.processes others = pids ∧ n.notify path (.ok others) kill = attempt) ∧
    attempt.signalled = pids ∧
    ∀ result, attempt.result = result ↔ n.Reports kill pids result := by
  refine ⟨n.processes_sorted entries, n.count_processes entries, fun others hperm => ?_,
    n.signalled_notify path entries kill, fun result => ⟨?_, fun hreport => ?_⟩⟩
  · have hsame := n.processes_perm hperm
    refine ⟨hsame, ?_⟩
    rw [notify, notify, hsame]
  · rintro rfl
    exact n.reports_notify path entries kill
  · exact (n.reports_notify path entries kill).unique hreport

/-- An entry for a process that has been started as `/user/dnsd`. -/
def dnsdEntry (name : String) : ProcessEntry where
  name := encode name.toList
  commandLine? := some (encode "/user/dnsd".toList ++ [0])

def dnsd : SignalTarget := ⟨"/user/dnsd", .userFirst⟩

/-- Of three processes the one in the middle cannot be signalled.  The last one is tried
nevertheless, and in whichever order they are listed, that failure is reported. -/
theorem notify_reports_middle :
    let entries := [dnsdEntry "100", dnsdEntry "42", ⟨encode "7".toList, none⟩, dnsdEntry "300"]
    let kill := fun pid : Int => if pid = 100 then .error KillFailure.notPermitted else .ok ()
    entries.reverse.Perm entries ∧
    (dnsd.notify "/proc" (.ok entries.reverse) kill).signalled = [42, 100, 300] ∧
    (dnsd.notify "/proc" (.ok entries.reverse) kill).result =
      .error (.notSent .userFirst "/user/dnsd" 100 .notPermitted) := by
  intro entries kill
  have hpids : dnsd.processes entries = [42, 100, 300] :=
    processes_eq_of_perm (by decide +kernel) (by decide)
  obtain ⟨-, -, hlisted, hsignalled, hresult⟩ := notify_reports dnsd "/proc" entries kill
  have hsame := (hlisted _ entries.reverse_perm).2
  refine ⟨entries.reverse_perm, ?_, ?_⟩
  · rw [hsame, hsignalled, hpids]
  · rw [hsame, hresult, hpids]
    have hfails : (100 : Int) ∈ [42, 100, 300] := by decide
    exact .failed hfails rfl (by decide)

/-! ### Single processes -/

theorem signalled_of_listing (n : SignalTarget) (path : String)
    (listing : Except IoFailure (List ProcessEntry)) (kill : Int → Except KillFailure Unit) :
    (n.notify path listing kill).signalled = n.processes (listing.toOption.getD []) := by
  cases listing with
  | error e => exact (processes_eq_of_perm .nil .nil).symm
  | ok entries => exact n.signalled_notify path entries kill

/-- The text of a name is a text of the number. -/
theorem Means.spells {text : List Char} (h : n.Means entry pid) (hname : entry.name = encode text) :
    Text.SpellsInteger text pid := by
  obtain ⟨text', hname', hspells⟩ := h.named
  rw [Text.Utf8.encode_injective (hname.symm.trans hname')]
  exact hspells

/-- A name is plain if it is the numeral of a positive number. -/
def IsPlain (name : List UInt8) : Prop := ∃ k : Nat, 0 < k ∧ name = encode (Text.decimal k)

theorem Means.eq_of_decimal {k : Nat} (h : n.Means entry pid)
    (hname : entry.name = encode (Text.decimal k)) : pid = k :=
  Text.spellsInteger_decimal_iff.mp (h.spells hname)

theorem processes_pos_iff : (∀ pid ∈ n.processes entries, 0 < pid) ↔
    ∀ entry ∈ entries, ∀ pid, n.Means entry pid →
      ∃ text, entry.name = encode text ∧ '-' ∉ text ∧ ∃ c ∈ text, c.isDigit = true ∧ c ≠ '0' := by
  constructor
  · intro hpos entry hentry pid hmeans
    obtain ⟨text, hname, hspells⟩ := hmeans.named
    have hpid : pid ∈ n.processes entries := mem_processes_iff.mpr ⟨entry, hentry, hmeans⟩
    exact ⟨text, hname, hspells.pos_iff.mp (hpos pid hpid)⟩
  · intro hnames pid hpid
    obtain ⟨entry, hentry, hmeans⟩ := mem_processes_iff.mp hpid
    obtain ⟨text, hname, hsigns⟩ := hnames entry hentry pid hmeans
    exact (hmeans.spells hname).pos_iff.mpr hsigns

theorem processes_nodup_iff : (n.processes entries).Nodup ↔
    entries.Pairwise fun a b => ∀ pid, n.Means a pid → ¬n.Means b pid := by
  rw [(n.processes_perm_filterMap entries).nodup_iff, List.Nodup, List.pairwise_filterMap]
  simp only [match?_eq_some_iff]
  refine List.Pairwise.iff fun a b => ⟨fun h pid ha hb => h pid ha pid hb rfl, ?_⟩
  rintro h pid ha pid' hb rfl
  exact h pid ha hb

/-- **When a notification signals single processes only, and each once.**  Every number to which
the signal is sent is positive if and only if no name of an entry that is meant has a minus sign,
and each has a digit that is not zero; and none is used twice if and only if no two entries that are
meant have names of the same number.  So it is where the names of the entries that are meant are
plain numerals of positive numbers, and no two entries have the same name. -/
theorem signalled_alone (n : SignalTarget) (path : String)
    (listing : Except IoFailure (List ProcessEntry)) (kill : Int → Except KillFailure Unit) :
    let entries := listing.toOption.getD []
    let pids := (n.notify path listing kill).signalled
    ((∀ pid ∈ pids, 0 < pid) ↔ ∀ entry ∈ entries, ∀ pid, n.Means entry pid →
      ∃ text, entry.name = encode text ∧ '-' ∉ text ∧ ∃ c ∈ text, c.isDigit = true ∧ c ≠ '0') ∧
    (pids.Nodup ↔ entries.Pairwise fun a b => ∀ pid, n.Means a pid → ¬n.Means b pid) ∧
    ((∀ entry ∈ entries, ∀ pid, n.Means entry pid → IsPlain entry.name) →
      (entries.map (·.name)).Nodup → (∀ pid ∈ pids, 0 < pid) ∧ pids.Nodup) := by
  intro entries pids
  have hpids : pids = n.processes entries := n.signalled_of_listing path listing kill
  rw [hpids]
  refine ⟨processes_pos_iff, processes_nodup_iff, fun hplain hnames => ⟨fun pid hpid => ?_, ?_⟩⟩
  · obtain ⟨entry, hentry, hmeans⟩ := mem_processes_iff.mp hpid
    obtain ⟨k, hk, hname⟩ := hplain entry hentry pid hmeans
    rw [hmeans.eq_of_decimal hname]
    omega
  · rw [processes_nodup_iff]
    refine (List.pairwise_map.mp hnames).imp_of_mem fun ha hb hne pid hmeans hmeans' => ?_
    obtain ⟨k, -, hk⟩ := hplain _ ha pid hmeans
    obtain ⟨l, -, hl⟩ := hplain _ hb pid hmeans'
    have hsame : k = l :=
      Int.ofNat_inj.mp ((hmeans.eq_of_decimal hk).symm.trans (hmeans'.eq_of_decimal hl))
    exact hne (by rw [hk, hl, hsame])

/-- The numbers to which a signal is sent for entries of these names. -/
def signalledFor (names : List String) : List Int :=
  (dnsd.notify "/proc" (.ok (names.map dnsdEntry)) fun _ => .error .noSuchProcess).signalled

/-- A negative number is signalled if an entry has it as its name, and a number that two entries
have is signalled twice; of plain names each is signalled once. -/
theorem signalled_alone_misnamed :
    (signalledFor ["-5000000"] = [-5000000] ∧ ¬∀ pid ∈ signalledFor ["-5000000"], 0 < pid) ∧
    (signalledFor ["42", "042"] = [42, 42] ∧ ¬(signalledFor ["42", "042"]).Nodup) ∧
    (∀ pid ∈ signalledFor ["42", "100"], 0 < pid) ∧ (signalledFor ["42", "100"]).Nodup := by
  have hprocesses (names : List String) :
      signalledFor names = dnsd.processes (names.map dnsdEntry) := dnsd.signalled_of_listing _ _ _
  have hnegative : dnsd.Means (dnsdEntry "-5000000") (-5000000) := by decide +kernel
  have hplain : ∀ entry ∈ ["42", "100"].map dnsdEntry, IsPlain entry.name :=
    List.forall_mem_cons.mpr ⟨⟨42, by decide, rfl⟩,
      List.forall_mem_singleton.mpr ⟨100, by decide, rfl⟩⟩
  refine ⟨⟨?_, fun hpos => ?_⟩, ⟨?_, fun hnodup => ?_⟩, ?_⟩
  · rw [hprocesses]
    exact processes_eq_of_perm (by decide +kernel) (by decide)
  · obtain ⟨text, hname, hminus, -⟩ := (signalled_alone dnsd _ _ _).1.mp hpos _
      List.mem_cons_self _ hnegative
    rw [← Text.Utf8.encode_injective hname] at hminus
    exact absurd hminus (by decide)
  · rw [hprocesses]
    exact processes_eq_of_perm (by decide +kernel) (by decide)
  · have hdifferent := (signalled_alone dnsd _ _ _).2.1.mp hnodup
    exact (List.pairwise_cons.mp hdifferent).1 _ List.mem_cons_self 42 (by decide +kernel)
      (by decide +kernel)
  · exact (signalled_alone dnsd _ _ _).2.2 (fun entry hentry _ _ => hplain entry hentry) (by decide)

end SignalTarget

end LeaseKeeper
