/-
The switches of the command line.

* `Switch.ofLong?` — the switch of a name;
* `Switch.usage` — how a switch is shown in a message;
* `Switch.apply` — what a switch with its value does to the settings;
* `Refusal.message` — why a command line is not accepted.
-/
import LeaseKeeper.CommandLine.Settings
import LeaseKeeper.Text.SignedNumber
import LeaseKeeper.Text.Terminal

namespace LeaseKeeper.CommandLine

inductive Switch where
  | stateDir
  | leasesFile
  | ouiFile
  | httpPort
  | extraListenAddr
  | notifyProcess
  | noNotify
  | stderr
  | logDir
  | help
  | version
  deriving DecidableEq, Repr

namespace Switch

def long : Switch → String
  | .stateDir => "state-dir"
  | .leasesFile => "leases-file"
  | .ouiFile => "oui-file"
  | .httpPort => "http-port"
  | .extraListenAddr => "extra-listen-addr"
  | .notifyProcess => "notify-process"
  | .noNotify => "no-notify"
  | .stderr => "stderr"
  | .logDir => "log-dir"
  | .help => "help"
  | .version => "version"

def all : List Switch :=
  [.stateDir, .leasesFile, .ouiFile, .httpPort, .extraListenAddr, .notifyProcess, .noNotify,
    .stderr, .logDir, .help, .version]

/-- The switch of a name, which must be complete. -/
def ofLong? (name : String) : Option Switch := all.find? (·.long == name)

def ofShort? (c : Char) : Option Switch :=
  if c = 'h' then some .help else if c = 'V' then some .version else none

/-- What the value of a switch is called; a switch without this takes no value. -/
def valueName? : Switch → Option String
  | .stateDir => some "STATE_DIR"
  | .leasesFile => some "LEASES_FILE"
  | .ouiFile => some "OUI_FILE"
  | .httpPort => some "HTTP_PORT"
  | .extraListenAddr => some "EXTRA_LISTEN_ADDRS"
  | .notifyProcess => some "NOTIFY_PROCESSES"
  | .noNotify => none
  | .stderr => some "STDERR"
  | .logDir => some "LOG_DIR"
  | .help => none
  | .version => none

def takesValue (s : Switch) : Bool := s.valueName?.isSome

/-- Whether a switch may be given more than once. -/
def isRepeatable : Switch → Bool
  | .extraListenAddr => true
  | .notifyProcess => true
  | _ => false

/-- A switch as a message shows it. -/
def usage (s : Switch) : String :=
  match s.valueName? with
  | some name => "--" ++ s.long ++ " <" ++ name ++ ">"
  | none => "--" ++ s.long

end Switch

inductive Refusal where
  | unknownArgument (argument : String)
  | missingValue (s : Switch)
  | valueNotListed (s : Switch) (value : String)
  | unfitValue (s : Switch) (value reason : String)
  | unneededValue (s : Switch) (value : String)
  | repeated (s : Switch)
  | conflict (first second : Switch)
  deriving DecidableEq, Repr

/-- The wording of a reason.  What was given is named without control sequences. -/
def Refusal.message : Refusal → String
  | .unknownArgument argument => "unexpected argument '" ++ Text.shown argument ++ "' found"
  | .missingValue s => "a value is required for '" ++ s.usage ++ "' but none was supplied"
  | .valueNotListed s value => "invalid value '" ++ Text.shown value ++ "' for '" ++ s.usage ++ "'"
  | .unfitValue s value reason =>
    "invalid value '" ++ Text.shown value ++ "' for '" ++ s.usage ++ "': " ++ reason
  | .unneededValue s value =>
    "unexpected value '" ++ Text.shown value ++ "' for '" ++ s.usage ++
      "' found; no more were expected"
  | .repeated s => "the argument '" ++ s.usage ++ "' cannot be used multiple times"
  | .conflict first second =>
    "the argument '" ++ first.usage ++ "' cannot be used with '" ++ second.usage ++ "'"

/-- A path, which must not be empty. -/
def path (s : Switch) (value : String) : Except Refusal String :=
  if value.isEmpty then .error (.missingValue s) else .ok value

/-- A number at which endpoints can listen: one from 0 to 65535. -/
def listenNumber (s : Switch) (value : String) : Except Refusal Nat :=
  match Text.signedNumber value.toList with
  | .error e => .error (.unfitValue s value e.message)
  | .ok n =>
    if 0 ≤ n ∧ n ≤ 65535 then .ok n.toNat
    else
      .error (.unfitValue s value (String.ofList (Text.integer n) ++ " is not in 0..=65535"))

def address (s : Switch) (value : String) : Except Refusal Address :=
  match Address.ofText? value with
  | some a => .ok a
  | none => .error (.unfitValue s value "invalid IP address syntax")

def truth (s : Switch) (value : String) : Except Refusal Bool :=
  if value = "true" then .ok true
  else if value = "false" then .ok false
  else if value.isEmpty then .error (.missingValue s)
  else .error (.valueNotListed s value)

/-- The settings after a switch with its value, which is empty for a switch that takes none. -/
def Switch.apply (s : Switch) (value : String) (o : Settings) : Except Refusal Settings :=
  match s with
  | .stateDir => (path s value).map fun v => { o with stateDirectory := v }
  | .leasesFile => (path s value).map fun v => { o with leasesFile := some v }
  | .ouiFile => (path s value).map fun v => { o with vendorFile := some v }
  | .httpPort => (listenNumber s value).map fun v => { o with listenNumber := v }
  | .extraListenAddr =>
    (address s value).map fun v => { o with extraAddresses := o.extraAddresses ++ [v] }
  | .notifyProcess =>
    .ok { o with notifyProcesses := some (o.notifyProcesses.getD [] ++ [value]) }
  | .noNotify => .ok { o with noNotify := true }
  | .stderr => (truth s value).map fun v => { o with logToStderr := v }
  | .logDir => (path s value).map fun v => { o with logDirectory := some v }
  | .help | .version => .ok o

end LeaseKeeper.CommandLine
