/-
Metrics: named gauges in a registry.

* `Registry.register` — adds a gauge, unless its name or help is unfit or the name is taken;
* `Registry.set`, `Registry.add` — change the value of a gauge, which has 64 bits and wraps;
* `leaseGauge` — the gauge of the leases that have not run out.
-/
import LeaseKeeper.Text.Quoted

namespace LeaseKeeper.Metrics

/-- The letters that a name may begin with. -/
def isNameStart (c : Char) : Bool := c.isAlpha || c == '_' || c == ':'

/-- Whether a text can be the name of a metric: letters, digits, underscores and colons, and
no digit at the beginning. -/
def isName : List Char → Bool
  | [] => false
  | c :: s => isNameStart c && s.all fun d => isNameStart d || d.isDigit

/-- A number that goes up and down. -/
structure Gauge where
  name : String
  help : String
  value : Int64
  deriving DecidableEq

/-- Why a gauge is not added. -/
inductive RegisterError where
  | emptyHelp
  | invalidName (name : String)
  | nameTaken
  deriving DecidableEq, Repr

def RegisterError.message : RegisterError → String
  | .emptyHelp => optionsError "empty help string"
  | .invalidName name => optionsError ("'" ++ name ++ "' is not a valid metric name")
  | .nameTaken => "metric registered twice: AlreadyReg"
where
  /-- How an error of the name or the help is reported. -/
  optionsError (wording : String) : String :=
    "valid metric options: Msg(" ++ Text.quoted wording ++ ")"

/-- The gauges in the order in which they have been added. -/
structure Registry where
  gauges : List Gauge
  deriving DecidableEq

namespace Registry

def empty : Registry := ⟨[]⟩

def size (r : Registry) : Nat := r.gauges.length

def contains (r : Registry) (name : String) : Bool := r.gauges.any (·.name == name)

/-- Adds a gauge, which starts at zero. -/
def register (r : Registry) (name help : String) : Except RegisterError Registry :=
  if help.isEmpty then .error .emptyHelp
  else if !isName name.toList then .error (.invalidName name)
  else if r.contains name then .error .nameTaken
  else .ok ⟨r.gauges ++ [⟨name, help, 0⟩]⟩

def value? (r : Registry) (i : Nat) : Option Int64 := (r.gauges[i]?).map (·.value)

/-- Changes the value of a gauge. -/
def modify (r : Registry) (i : Nat) (f : Int64 → Int64) : Registry :=
  ⟨r.gauges.modify i fun g => { g with value := f g.value }⟩

def set (r : Registry) (i : Nat) (value : Int64) : Registry := r.modify i fun _ => value

def add (r : Registry) (i : Nat) (amount : Int64) : Registry := r.modify i (· + amount)

end Registry

/-- The gauge of the leases that have not run out. -/
def leaseGauge (count : Nat) : Gauge where
  name := "non_expired_leases"
  help := "Number of non-expired DHCP leases"
  value := Int64.ofNat (min count 0x7FFFFFFFFFFFFFFF)

end LeaseKeeper.Metrics
