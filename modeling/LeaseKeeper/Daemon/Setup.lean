/-
How a daemon is set up.

* `Setup` — its paths, subscribers and addresses;
* `Setup.ofSettings` — the setup that a command line asks for.
-/
import LeaseKeeper.CommandLine.Settings
import LeaseKeeper.Net.AddressSupply
import LeaseKeeper.Notification.Subscriber

namespace LeaseKeeper

structure Setup where
  stateDirectory : String
  leasesFile : Option String := none
  vendorFile : Option String := none
  listenNumber : Nat := 8067
  subscribers : List Subscriber := []
  extraAddresses : List Address := []
  /-- Whether a signal makes the daemon reconsider its addresses. -/
  reconfiguresOnSignal : Bool := true
  /-- Whether a signal makes the daemon end. -/
  endsOnSignal : Bool := false

namespace Setup

def leaseFilePath (s : Setup) : String :=
  s.leasesFile.getD (Path.joinText s.stateDirectory leaseFileName)

def vendorPath (s : Setup) : String :=
  s.vendorFile.getD (Path.joinText s.stateDirectory vendorFileName)

/-- Where the addresses come from, unless another source is named. -/
def supply (s : Setup) : AddressSupply := .interfaces s.extraAddresses

/-- Tells the processes of a name of every change. -/
def addProcess (s : Setup) (name : String) : Setup :=
  { s with subscribers := s.subscribers ++ [.process ⟨name, .userFirst⟩] }

/-- The setup that settings ask for. -/
def ofSettings (o : Settings) : Setup :=
  o.processesToSignal.foldl addProcess
    { stateDirectory := o.stateDirectory
      leasesFile := o.leasesFile
      vendorFile := o.vendorFile
      listenNumber := o.listenNumber
      extraAddresses := o.extraAddresses }

end Setup

end LeaseKeeper
