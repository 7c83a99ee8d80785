/-
What the program is told on its command line.

* `Settings` — the settings, with their defaults;
* `Settings.leaseFilePath`, `Settings.vendorPath`, `Settings.processesToSignal` — what follows from them.
-/
import LeaseKeeper.FileSystem.Path
import LeaseKeeper.Net.Address

namespace LeaseKeeper

def leaseFileName : String := "leases.json"

def vendorFileName : String := "oui"

structure Settings where
  stateDirectory : String := "/perm/dhcp4d"
  leasesFile : Option String := none
  vendorFile : Option String := none
  listenNumber : Nat := 8067
  extraAddresses : List Address := []
  /-- The processes to notify; `none` if none are named. -/
  notifyProcesses : Option (List String) := none
  noNotify : Bool := false
  logToStderr : Bool := true
  logDirectory : Option String := none
  deriving DecidableEq

namespace Settings

/-- The process that is notified unless others are named. -/
def defaultNotifyProcess : String := "/user/dnsd"

def leaseFilePath (o : Settings) : String :=
  o.leasesFile.getD (Path.joinText o.stateDirectory leaseFileName)

def vendorPath (o : Settings) : String :=
  o.vendorFile.getD (Path.joinText o.stateDirectory vendorFileName)

/-- The processes that are named, or the default one. -/
def processes (o : Settings) : List String := o.notifyProcesses.getD [defaultNotifyProcess]

/-- The processes to notify of a change. -/
def processesToSignal (o : Settings) : List String := if o.noNotify then [] else o.processes

end Settings

end LeaseKeeper
