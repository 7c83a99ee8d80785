/-
Command lines mean the same in every order and spelling.

* `Rearranged` — the same switches in another order;
* `settingsOf_rearranged`, `Acceptable.of_rearranged` — they make the same settings, and they are
  accepted together as well;
* `parse_rearranged` — so a command line can be rearranged and spelled otherwise, and a daemon does
  what is given on it.

Design notes: a switch that must not be repeated has at most one value, which makes its values the
same in every order.  Nothing else is needed of the order, so only the values of the switches that
may be repeated have to keep theirs.
-/
import LeaseKeeper.Proofs.CommandLine.Meaning
import LeaseKeeper.Proofs.Daemon.Launch

namespace LeaseKeeper.CommandLine

/-- Whether switches are the same in another order, where the processes to notify and the extra
addresses keep their order among themselves. -/
structure Rearranged (os' os : List Occurrence) : Prop where
  perm : os'.Perm os
  notifyProcess : values os' .notifyProcess = values os .notifyProcess
  extraListenAddr : values os' .extraListenAddr = values os .extraListenAddr

variable {s : Switch} {o : Settings} {os os' : List Occurrence} {arguments : List String}

theorem length_values_le (os : List Occurrence) (s : Switch) :
    (values os s).length ≤ (switches os).count s := by
  induction os with
  | nil => exact Nat.le_refl 0
  | cons x os ih =>
    rw [values, List.filterMap_cons, switches, List.map_cons, List.count_cons]
    split
    · exact Nat.le_trans ih (Nat.le_add_right _ _)
    · next v hv =>
      obtain ⟨hs, _⟩ := Option.ite_none_right_eq_some.1 hv
      rw [List.length_cons, if_pos (beq_iff_eq.2 hs)]
      exact Nat.succ_le_succ ih

theorem eq_of_perm_of_length_le {l l' : List String} (h : l'.Perm l) (hl : l.length ≤ 1) :
    l' = l := by
  match l with
  | [] => exact h.eq_nil
  | [a] => exact List.perm_singleton.1 h

theorem switches_perm (h : os'.Perm os) : (switches os').Perm (switches os) := h.map _

/-- The values of each switch are what they were. -/
theorem Rearranged.values_eq (h : Rearranged os' os) (hos : Takeable os) (s : Switch) :
    values os' s = values os s := by
  by_cases hs : s.isRepeatable = false
  · exact eq_of_perm_of_length_le (h.perm.filterMap _)
      (Nat.le_trans (length_values_le os s) (hos.once s hs))
  · cases s with
    | notifyProcess => exact h.notifyProcess
    | extraListenAddr => exact h.extraListenAddr
    | _ => exact absurd rfl hs

theorem settingsOf_rearranged (h : Rearranged os' os) (hos : Takeable os) :
    settingsOf os' = settingsOf os := by
  have hno : .noNotify ∈ switches os' ↔ .noNotify ∈ switches os := (switches_perm h.perm).mem_iff
  simp only [settingsOf, h.values_eq hos, hno]

theorem Acceptable.of_rearranged (hos : Acceptable os) (h : Rearranged os' os) :
    Acceptable os' where
  fit x hx := hos.fit x (h.perm.mem_iff.1 hx)
  once s hs := by
    rw [(switches_perm h.perm).count_eq]
    exact hos.once s hs
  compatible hno hprocess := hos.compatible ((switches_perm h.perm).mem_iff.1 hno)
    ((switches_perm h.perm).mem_iff.1 hprocess)

/-- Every extra address that is given can be read, and it is taken over. -/
theorem map_ofText?_values (hos : Takeable os) :
    (values os .extraListenAddr).map Address.ofText? = (settingsOf os).extraAddresses.map some := by
  have hread : ∀ v ∈ values os .extraListenAddr, ∃ a, Address.ofText? v = some a := by
    intro v hv
    obtain ⟨x, hx, hvalue⟩ := List.mem_filterMap.1 hv
    obtain ⟨hs, hvalue⟩ := Option.ite_none_right_eq_some.1 hvalue
    obtain ⟨o, ho⟩ := (hos.fit x hx).applies
    rw [hs, hvalue] at ho
    obtain ⟨a, ha, _⟩ := map_eq_ok.1 ho
    exact ⟨a, address_eq_ok ha⟩
  show _ = ((values os .extraListenAddr).filterMap Address.ofText?).map some
  generalize values os .extraListenAddr = l at hread
  induction l with
  | nil => rfl
  | cons v l ih =>
    obtain ⟨a, ha⟩ := hread v List.mem_cons_self
    rw [List.map_cons, List.filterMap_cons_some ha, List.map_cons, ha,
      ih fun v hv => hread v (List.mem_cons_of_mem _ hv)]

theorem leaseFilePath_settingsOf (os : List Occurrence) :
    (settingsOf os).leaseFilePath = (values os .leasesFile).getLast?.getD
      (Path.joinText ((values os .stateDir).getLast?.getD "/perm/dhcp4d") "leases.json") := rfl

theorem processesToSignal_settingsOf (os : List Occurrence) :
    (settingsOf os).processesToSignal =
      if .noNotify ∈ switches os then []
      else if values os .notifyProcess = [] then ["/user/dnsd"]
      else values os .notifyProcess := by
  simp only [settingsOf, Settings.processesToSignal, Settings.processes, decide_eq_true_eq]
  split
  · rfl
  · split <;> rfl

/-- **Command lines mean the same in every order and spelling.**  What is accepted gives switches,
the same ones to everyone who reads it.  However they are spelled, and in whatever order they are
given if the processes and the extra addresses keep theirs, they are accepted as the same settings.
Switching the notifications off does not go with naming processes.  The lease file is the one that
is given, or the usual one in the state directory; the processes are those that are named, or the
default one; the extra addresses are those that are given; and the setup does what the settings say,
as does a daemon that is launched. -/
theorem parse_rearranged (h : Settings.parse arguments = .ok o) :
    ∃ given, (∀ os, Spelled os arguments ↔ os = given) ∧
      (∀ os arguments', Rearranged os given → Spelled os arguments' →
        Settings.parse arguments' = .ok o) ∧
      (.noNotify ∈ switches given → .notifyProcess ∉ switches given) ∧
      o.leaseFilePath = (values given .leasesFile).getLast?.getD
        (Path.joinText ((values given .stateDir).getLast?.getD "/perm/dhcp4d") "leases.json") ∧
      o.processesToSignal =
        (if .noNotify ∈ switches given then []
        else if values given .notifyProcess = [] then ["/user/dnsd"]
        else values given .notifyProcess) ∧
      (values given .extraListenAddr).map Address.ofText? = o.extraAddresses.map some ∧
      (Setup.ofSettings o).Follows o ∧
      ∀ now reported fs d tree,
        Launch.ofArguments arguments now reported fs = (.running d, tree) →
          d.Follows o reported tree := by
  obtain ⟨given, hgiven⟩ := exists_spelled h
  obtain ⟨hos, he⟩ := (parse_eq_ok_iff hgiven).1 h
  have hrun (now reported fs d tree)
      (hd : Launch.ofArguments arguments now reported fs = (.running d, tree)) :
      d.Follows o reported tree := by
    rw [Launch.ofArguments, h] at hd
    exact Launch.follows_of_running hd
  subst he
  refine ⟨given, fun os => ⟨fun hos => hos.unique hgiven, fun he => he ▸ hgiven⟩,
    fun os arguments' hre hspelled => ?_, hos.compatible, leaseFilePath_settingsOf given,
    processesToSignal_settingsOf given, map_ofText?_values hos.toTakeable,
    Setup.ofSettings_follows _, hrun⟩
  exact (parse_eq_ok_iff hspelled).2
    ⟨hos.of_rearranged hre, (settingsOf_rearranged hre hos.toTakeable).symm⟩

/-- Four switches, and the same ones otherwise. -/
theorem parse_rearranged_mixed :
    let o : Settings :=
      { stateDirectory := "/tmp/state"
        listenNumber := 18067
        notifyProcesses := some ["/user/radvd", "/user/dnsd"] }
    Settings.parse ["--state-dir", "/tmp/state", "--notify-process", "/user/radvd",
      "--http-port", "18067", "--notify-process", "/user/dnsd"] = .ok o ∧
    Settings.parse ["--notify-process=/user/radvd", "--http-port", "18067", "--notify-process",
      "/user/dnsd", "--state-dir=/tmp/state"] = .ok o := by
  intro o
  have h : Settings.parse ["--state-dir", "/tmp/state", "--notify-process", "/user/radvd",
      "--http-port", "18067", "--notify-process", "/user/dnsd"] = .ok o := by
    decide +kernel
  have hspelled := Spelled.cons (@Occurrence.Spells.apart .stateDir "/tmp/state" rfl (by decide))
    (.cons (@Occurrence.Spells.apart .notifyProcess "/user/radvd" rfl (by decide))
    (.cons (@Occurrence.Spells.apart .httpPort "18067" rfl (by decide))
    (.cons (@Occurrence.Spells.apart .notifyProcess "/user/dnsd" rfl (by decide)) .nil)))
  have hspelled' := Spelled.cons (@Occurrence.Spells.joined .notifyProcess (some "/user/radvd") rfl)
    (.cons (@Occurrence.Spells.apart .httpPort "18067" rfl (by decide))
    (.cons (@Occurrence.Spells.apart .notifyProcess "/user/dnsd" rfl (by decide))
    (.cons (@Occurrence.Spells.joined .stateDir (some "/tmp/state") rfl) .nil)))
  obtain ⟨given, hgiven, hsame, _⟩ := parse_rearranged h
  obtain rfl := (hgiven _).1 hspelled
  exact ⟨h, hsame _ _ ⟨by decide, by decide, by decide⟩ hspelled'⟩

end LeaseKeeper.CommandLine
