/-
What the switches on a command line amount to.

* `values`, `settingsOf` — the values that are given for a switch, and the settings they make;
* `apply_settingsOf` — the settings with one more switch;
* `Acceptable` — the switches that are accepted together;
* `parse_eq_ok_iff` — a command line is accepted as the settings that its switches make.

Design notes: each setting is made of the values of one switch.  What is given in between does not
come into `settingsOf`, nor into `Acceptable`, which counts how often a switch is given.
-/
import LeaseKeeper.Proofs.CommandLine.Reading

namespace LeaseKeeper.CommandLine

/-- The switches that are given. -/
def switches (os : List Occurrence) : List Switch := os.map Occurrence.switch

/-- The values that are given for a switch. -/
def values (os : List Occurrence) (s : Switch) : List String :=
  os.filterMap fun x => if x.switch = s then x.value? else none

/-- The settings that switches make. -/
def settingsOf (os : List Occurrence) : Settings :=
  let unset : Settings := {}
  { stateDirectory := (values os .stateDir).getLast?.getD unset.stateDirectory
    leasesFile := (values os .leasesFile).getLast?
    vendorFile := (values os .ouiFile).getLast?
    listenNumber :=
      ((values os .httpPort).getLast?.bind fun v => (listenNumber .httpPort v).toOption).getD
        unset.listenNumber
    extraAddresses := (values os .extraListenAddr).filterMap Address.ofText?
    notifyProcesses :=
      if values os .notifyProcess = [] then none else some (values os .notifyProcess)
    noNotify := decide (.noNotify ∈ switches os)
    logToStderr :=
      ((values os .stderr).getLast?.bind fun v => (truth .stderr v).toOption).getD
        unset.logToStderr
    logDirectory := (values os .logDir).getLast? }

variable {s : Switch} {value : String} {o o' : Settings} {r r' : Reading} {x : Occurrence}
  {os before : List Occurrence} {arguments : List String}

theorem values_append (os os' : List Occurrence) (s : Switch) :
    values (os ++ os') s = values os s ++ values os' s := List.filterMap_append

theorem values_same (s : Switch) (value? : Option String) :
    values [⟨s, value?⟩] s = value?.toList := by
  cases value? <;> simp [values]

theorem values_other {s t : Switch} (h : s ≠ t) (value? : Option String) :
    values [⟨s, value?⟩] t = [] := by
  simp [values, h]

/-! ### One more switch -/

theorem path_eq_ok {v : String} (h : path s value = .ok v) : v = value := by
  rw [path] at h
  split at h <;> cases h
  rfl

theorem address_eq_ok {a : Address} (h : address s value = .ok a) :
    Address.ofText? value = some a := by
  rw [address] at h
  split at h
  · next hvalue =>
    cases h
    exact hvalue
  · cases h

/-- A value fits a switch whatever the settings are. -/
theorem exists_apply_iff (s : Switch) (value : String) (o o' : Settings) :
    (∃ a, s.apply value o = .ok a) ↔ ∃ a, s.apply value o' = .ok a := by
  cases s <;> simp [Switch.apply, exists_map_eq_ok]

/-- The settings with one more switch. -/
theorem apply_settingsOf (hvalue : x.switch.takesValue = true → x.value?.isSome = true)
    (h : x.switch.apply (x.value?.getD "") (settingsOf os) = .ok o) :
    o = settingsOf (os ++ [x]) := by
  obtain ⟨s, value?⟩ := x
  cases s with
  | stateDir | leasesFile | ouiFile | logDir =>
    obtain ⟨value, rfl⟩ := Option.isSome_iff_exists.1 (hvalue rfl)
    obtain ⟨v, hv, rfl⟩ := map_eq_ok.1 h
    obtain rfl := path_eq_ok hv
    simp [settingsOf, values_append, values_same, values_other, switches]
  | httpPort | stderr =>
    obtain ⟨value, rfl⟩ := Option.isSome_iff_exists.1 (hvalue rfl)
    obtain ⟨v, hv, rfl⟩ := map_eq_ok.1 h
    simp only [Option.getD_some] at hv
    simp [settingsOf, values_append, values_same, values_other, switches, hv, Except.toOption]
  | extraListenAddr =>
    obtain ⟨value, rfl⟩ := Option.isSome_iff_exists.1 (hvalue rfl)
    obtain ⟨a, ha, rfl⟩ := map_eq_ok.1 h
    have ha := address_eq_ok ha
    simp only [Option.getD_some] at ha
    simp [settingsOf, values_append, values_same, values_other, switches, ha]
  | notifyProcess =>
    obtain ⟨value, rfl⟩ := Option.isSome_iff_exists.1 (hvalue rfl)
    cases h
    by_cases hnone : values os .notifyProcess = []
    · simp [settingsOf, values_append, values_same, values_other, switches, hnone]
    · simp [settingsOf, values_append, values_same, values_other, switches, hnone]
  | noNotify =>
    cases h
    simp [settingsOf, values_append, values_other, switches]
  | help | version =>
    cases h
    simp [settingsOf, values_append, values_other, switches]

/-! ### What is accepted -/

/-- Whether a switch can be taken over with what is given as its value. -/
structure Occurrence.IsFit (x : Occurrence) : Prop where
  valued : x.switch.takesValue = true → x.value?.isSome = true
  not_help : x.switch ≠ .help
  not_version : x.switch ≠ .version
  applies : ∃ o, x.switch.apply (x.value?.getD "") {} = .ok o

/-- Whether switches can be taken over, one after another. -/
structure Takeable (os : List Occurrence) : Prop where
  fit : ∀ x ∈ os, x.IsFit
  once : ∀ s, s.isRepeatable = false → (switches os).count s ≤ 1

/-- Whether switches are accepted together. -/
structure Acceptable (os : List Occurrence) : Prop extends Takeable os where
  compatible : .noNotify ∈ switches os → .notifyProcess ∉ switches os

/-- A reading that has taken switches over. -/
structure Taken (os : List Occurrence) (r : Reading) : Prop where
  settings : r.settings = settingsOf os
  given : ∀ s, s ∈ r.given ↔ s ∈ switches os
  settled : r.pending = none

theorem switches_append (os os' : List Occurrence) :
    switches (os ++ os') = switches os ++ switches os' := List.map_append

theorem takeable_nil : Takeable [] := ⟨nofun, fun _ _ => Nat.zero_le 1⟩

theorem taken_nil : Taken [] {} := ⟨rfl, fun _ => Iff.rfl, rfl⟩

theorem Takeable.of_append {os' : List Occurrence} (h : Takeable (os ++ os')) : Takeable os where
  fit x hx := h.fit x (List.mem_append_left os' hx)
  once s hs := by
    have hboth := h.once s hs
    rw [switches_append, List.count_append] at hboth
    exact Nat.le_trans (Nat.le_add_right _ _) hboth

theorem takeable_concat_iff : Takeable (os ++ [x]) ↔
    Takeable os ∧ x.IsFit ∧ (x.switch ∈ switches os → x.switch.isRepeatable = true) := by
  have hcount (s : Switch) :
      (switches (os ++ [x])).count s = (switches os).count s + [x.switch].count s := by
    rw [switches_append, List.count_append]
    rfl
  constructor
  · intro h
    refine ⟨h.of_append, h.fit x (by simp), fun hmem => ?_⟩
    rw [← Bool.not_eq_false]
    intro hs
    have honce := h.once x.switch hs
    rw [hcount, List.count_singleton_self] at honce
    have hpos := List.count_pos_iff.2 hmem
    omega
  · rintro ⟨hos, hx, honce⟩
    refine ⟨fun y hy => ?_, fun s hs => ?_⟩
    · rcases List.mem_append.1 hy with hy | hy
      · exact hos.fit y hy
      · rw [List.mem_singleton.1 hy]
        exact hx
    · rw [hcount]
      by_cases he : x.switch = s
      · have hnew : s ∉ switches os := fun hmem => by
          subst he
          exact Bool.false_ne_true (hs.symm.trans (honce hmem))
        have hnone : (switches os).count s = 0 := List.count_eq_zero.2 hnew
        have hself : [x.switch].count s = 1 := by rw [he, List.count_singleton_self]
        omega
      · rw [List.count_singleton, if_neg (by simpa using he)]
        exact hos.once s hs

/-- **One more switch.** -/
theorem taken_take (hr : Taken before r) (hb : Takeable before)
    (h : r.take x.switch x.value? = .ok r') :
    Taken (before ++ [x]) r' ∧ Takeable (before ++ [x]) := by
  obtain ⟨hvalue, hhelp, hversion, honce, o, ho, rfl⟩ := take_eq_ok_iff.1 h
  have hfit : x.IsFit := ⟨hvalue, hhelp, hversion, (exists_apply_iff _ _ _ _).1 ⟨o, ho⟩⟩
  rw [hr.settings] at ho
  refine ⟨⟨apply_settingsOf hvalue ho, fun s => ?_, hr.settled⟩,
    takeable_concat_iff.2 ⟨hb, hfit, fun hmem => honce ((hr.given _).2 hmem)⟩⟩
  rw [switches_append, List.mem_append, ← hr.given]
  split
  · next hmem =>
    exact ⟨.inl, fun h => h.elim id fun he => by
      rw [List.mem_singleton.1 he]
      exact List.contains_iff_mem.1 hmem⟩
  · exact List.mem_append

theorem exists_take (hr : Taken before r) (h : Takeable (before ++ [x])) :
    ∃ r', r.take x.switch x.value? = .ok r' := by
  obtain ⟨_, hfit, honce⟩ := takeable_concat_iff.1 h
  obtain ⟨o, ho⟩ := (exists_apply_iff _ _ _ r.settings).1 hfit.applies
  exact ⟨_, take_eq_ok_iff.2 ⟨hfit.valued, hfit.not_help, hfit.not_version,
    fun hmem => honce ((hr.given _).1 hmem), o, ho, rfl⟩⟩

theorem taken_takes (hr : Taken before r) (hb : Takeable before) (h : takes r os = .ok r') :
    Taken (before ++ os) r' ∧ Takeable (before ++ os) := by
  induction os generalizing r before with
  | nil =>
    cases h
    rw [List.append_nil]
    exact ⟨hr, hb⟩
  | cons x os ih =>
    obtain ⟨r₁, htake, htakes⟩ := bind_eq_ok.1 h
    obtain ⟨hr₁, hb₁⟩ := taken_take hr hb htake
    rw [List.append_cons]
    exact ih hr₁ hb₁ htakes

theorem exists_takes (hr : Taken before r) (h : Takeable (before ++ os)) :
    ∃ r', takes r os = .ok r' := by
  induction os generalizing r before with
  | nil => exact ⟨r, rfl⟩
  | cons x os ih =>
    rw [List.append_cons] at h
    obtain ⟨r₁, htake⟩ := exists_take hr h.of_append
    obtain ⟨hr₁, _⟩ := taken_take hr h.of_append.of_append htake
    obtain ⟨r', htakes⟩ := ih hr₁ h
    exact ⟨r', bind_eq_ok.2 ⟨r₁, htake, htakes⟩⟩

theorem conflict?_eq_none_iff {given : List Switch} :
    Reading.conflict? given = none ↔ (.noNotify ∈ given → .notifyProcess ∉ given) := by
  rw [Reading.conflict?, List.findSome?_eq_none_iff]
  constructor
  · intro h hno hprocess
    have hnone := h .noNotify hno
    simp [Reading.conflictOf?, hprocess] at hnone
  · intro h s hs
    cases s with
    | noNotify => simpa [Reading.conflictOf?] using h hs
    | notifyProcess => simpa [Reading.conflictOf?] using fun hno => h hno hs
    | _ => rfl

/-- **A command line is accepted as the settings that its switches make.** -/
theorem parse_eq_ok_iff (h : Spelled os arguments) :
    Settings.parse arguments = .ok o ↔ Acceptable os ∧ o = settingsOf os := by
  have hall : Reading.all {} arguments = takes {} os := by
    rw [all_spelled h]
    rfl
  rw [Settings.parse, hall, bind_eq_ok]
  constructor
  · rintro ⟨r, htakes, hend⟩
    obtain ⟨hr, hos⟩ := taken_takes taken_nil takeable_nil htakes
    split at hend
    · cases hend
    · next hnone =>
      cases hend
      refine ⟨⟨hos, fun hno hprocess => ?_⟩, hr.settings⟩
      exact conflict?_eq_none_iff.1 hnone ((hr.given _).2 hno) ((hr.given _).2 hprocess)
  · rintro ⟨hos, rfl⟩
    obtain ⟨r, htakes⟩ := exists_takes taken_nil (show Takeable ([] ++ os) from hos.toTakeable)
    obtain ⟨hr, _⟩ := taken_takes taken_nil takeable_nil htakes
    have hnone : Reading.conflict? r.given = none := conflict?_eq_none_iff.2 fun hno hprocess =>
      hos.compatible ((hr.given _).1 hno) ((hr.given _).1 hprocess)
    refine ⟨r, htakes, ?_⟩
    rw [hnone]
    exact congrArg Except.ok hr.settings

end LeaseKeeper.CommandLine
