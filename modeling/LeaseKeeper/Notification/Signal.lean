/-
The signals that a process can be sent.

* `Signal.name` — the name of a signal; `Signal.ofName?` finds it again.
-/

namespace LeaseKeeper

inductive Signal where
  | hangup
  | interrupt
  | quit
  | illegalInstruction
  | trap
  | abort
  | busError
  | floatingPointError
  | kill
  | userFirst
  | segmentationFault
  | userSecond
  | brokenPipe
  | alarm
  | terminate
  | stackFault
  | childEnded
  | resume
  | stop
  | terminalStop
  | terminalInput
  | terminalOutput
  | urgentData
  | processorTimeLimit
  | fileSizeLimit
  | virtualAlarm
  | profilingAlarm
  | windowChange
  | inputOutput
  | powerFailure
  | badSystemCall
  deriving DecidableEq, Repr

namespace Signal

def name : Signal → String
  | .hangup => "SIGHUP"
  | .interrupt => "SIGINT"
  | .quit => "SIGQUIT"
  | .illegalInstruction => "SIGILL"
  | .trap => "SIGTRAP"
  | .abort => "SIGABRT"
  | .busError => "SIGBUS"
  | .floatingPointError => "SIGFPE"
  | .kill => "SIGKILL"
  | .userFirst => "SIGUSR1"
  | .segmentationFault => "SIGSEGV"
  | .userSecond => "SIGUSR2"
  | .brokenPipe => "SIGPIPE"
  | .alarm => "SIGALRM"
  | .terminate => "SIGTERM"
  | .stackFault => "SIGSTKFLT"
  | .childEnded => "SIGCHLD"
  | .resume => "SIGCONT"
  | .stop => "SIGSTOP"
  | .terminalStop => "SIGTSTP"
  | .terminalInput => "SIGTTIN"
  | .terminalOutput => "SIGTTOU"
  | .urgentData => "SIGURG"
  | .processorTimeLimit => "SIGXCPU"
  | .fileSizeLimit => "SIGXFSZ"
  | .virtualAlarm => "SIGVTALRM"
  | .profilingAlarm => "SIGPROF"
  | .windowChange => "SIGWINCH"
  | .inputOutput => "SIGIO"
  | .powerFailure => "SIGPWR"
  | .badSystemCall => "SIGSYS"

def all : List Signal :=
  [.hangup, .interrupt, .quit, .illegalInstruction, .trap, .abort, .busError,
    .floatingPointError, .kill, .userFirst, .segmentationFault, .userSecond, .brokenPipe,
    .alarm, .terminate, .stackFault, .childEnded, .resume, .stop, .terminalStop,
    .terminalInput, .terminalOutput, .urgentData, .processorTimeLimit, .fileSizeLimit,
    .virtualAlarm, .profilingAlarm, .windowChange, .inputOutput, .powerFailure, .badSystemCall]

def ofName? (n : String) : Option Signal := all.find? fun s => s.name == n

end Signal

end LeaseKeeper
