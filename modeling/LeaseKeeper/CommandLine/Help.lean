/-
What the program says about itself.

* `versionText`, `helpText` — the answers to `--version` and `--help`.
-/

namespace LeaseKeeper.CommandLine

def versionText : String := "dhcp4d 0.1.0\n"

def helpLines : List String := [
  "DHCPv4 lease bookkeeping: durable lease store, change notification and status endpoints",
  "",
  "Usage: dhcp4d [OPTIONS]",
  "",
  "Options:",
  "      --state-dir <STATE_DIR>",
  "          Directory holding the durable lease state. Created if missing [default: /perm/dhcp4d]",
  "      --leases-file <LEASES_FILE>",
  "          Lease file. Defaults to `leases.json` in the state directory",
  "      --oui-file <OUI_FILE>",
  "          Hardware vendor table in IEEE `oui.txt` format. Defaults to `oui` in the state directory",
  "      --http-port <HTTP_PORT>",
  "          The port every status endpoint listens on [default: 8067]",
  "      --extra-listen-addr <EXTRA_LISTEN_ADDRS>",
  "          Additional address to expose the status endpoint on",
  "      --notify-process <NOTIFY_PROCESSES>",
  "          Processes signalled with SIGUSR1 after every lease change [default: /user/dnsd]",
  "      --no-notify",
  "          Do not signal any process after lease changes",
  "      --stderr <STDERR>",
  "          Log to stderr [default: true] [possible values: true, false]",
  "      --log-dir <LOG_DIR>",
  "          Directory for the log files",
  "  -h, --help",
  "          Print help",
  "  -V, --version",
  "          Print version"]

def helpText : String := String.join (helpLines.map (· ++ "\n"))

end LeaseKeeper.CommandLine
