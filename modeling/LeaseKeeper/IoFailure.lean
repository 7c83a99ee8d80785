/-
Failures of the operating system.

A failure has a kind.  One that a system call reported also has the call's error number and
wording; `plain` is a failure of which only the kind is known; `nulInPath` is that of a path
which cannot be passed to a system call.

* `IoFailure.kind`, `IoFailure.message` — the kind and the wording of a failure.
-/

namespace LeaseKeeper

/-- What a failed operation of the operating system ran into. -/
inductive IoKind where
  | notFound
  | permissionDenied
  | connectionReset
  | addressInUse
  | addressNotAvailable
  | networkUnreachable
  | brokenPipe
  | alreadyExists
  | notADirectory
  | isADirectory
  | readOnlyFileSystem
  | timedOut
  | storageFull
  | resourceBusy
  | linkLoop
  | invalidName
  | interrupted
  | unexpectedEnd
  | outOfMemory
  | invalidInput
  | directoryNotEmpty
  deriving DecidableEq, Repr

def IoKind.all : List IoKind :=
  [.notFound, .permissionDenied, .connectionReset, .addressInUse, .addressNotAvailable,
    .networkUnreachable, .brokenPipe, .alreadyExists, .notADirectory, .isADirectory,
    .readOnlyFileSystem, .timedOut, .storageFull, .resourceBusy, .linkLoop, .invalidName,
    .interrupted, .unexpectedEnd, .outOfMemory, .invalidInput, .directoryNotEmpty]

def IoKind.message : IoKind → String
  | .notFound => "entity not found"
  | .permissionDenied => "permission denied"
  | .connectionReset => "connection reset"
  | .addressInUse => "address in use"
  | .addressNotAvailable => "address not available"
  | .networkUnreachable => "network unreachable"
  | .brokenPipe => "broken pipe"
  | .alreadyExists => "entity already exists"
  | .notADirectory => "not a directory"
  | .isADirectory => "is a directory"
  | .readOnlyFileSystem => "read-only filesystem or storage medium"
  | .timedOut => "timed out"
  | .storageFull => "no storage space"
  | .resourceBusy => "resource busy"
  | .linkLoop => "filesystem loop or indirection limit (e.g. symlink loop)"
  | .invalidName => "invalid filename"
  | .interrupted => "operation interrupted"
  | .unexpectedEnd => "unexpected end of file"
  | .outOfMemory => "out of memory"
  | .invalidInput => "invalid input parameter"
  | .directoryNotEmpty => "directory not empty"

/-- The errors that the system calls of this program report. -/
inductive SystemError where
  | noEntry
  | busy
  | exists
  | notDirectory
  | isDirectory
  | invalidArgument
  | nameTooLong
  | directoryNotEmpty
  | tooManyLinks
  | networkUnreachable
  deriving DecidableEq, Repr

namespace SystemError

def number : SystemError → Nat
  | .noEntry => 2
  | .busy => 16
  | .exists => 17
  | .notDirectory => 20
  | .isDirectory => 21
  | .invalidArgument => 22
  | .nameTooLong => 36
  | .directoryNotEmpty => 39
  | .tooManyLinks => 40
  | .networkUnreachable => 101

def text : SystemError → String
  | .noEntry => "No such file or directory"
  | .busy => "Device or resource busy"
  | .exists => "File exists"
  | .notDirectory => "Not a directory"
  | .isDirectory => "Is a directory"
  | .invalidArgument => "Invalid argument"
  | .nameTooLong => "File name too long"
  | .directoryNotEmpty => "Directory not empty"
  | .tooManyLinks => "Too many levels of symbolic links"
  | .networkUnreachable => "Network is unreachable"

def kind : SystemError → IoKind
  | .noEntry => .notFound
  | .busy => .resourceBusy
  | .exists => .alreadyExists
  | .notDirectory => .notADirectory
  | .isDirectory => .isADirectory
  | .invalidArgument => .invalidInput
  | .nameTooLong => .invalidName
  | .directoryNotEmpty => .directoryNotEmpty
  | .tooManyLinks => .linkLoop
  | .networkUnreachable => .networkUnreachable

end SystemError

/-- A failure of the operating system. -/
inductive IoFailure where
  | system (e : SystemError)
  | plain (kind : IoKind)
  | nulInPath
  deriving DecidableEq, Repr

namespace IoFailure

def kind : IoFailure → IoKind
  | .system e => e.kind
  | .plain kind => kind
  | .nulInPath => .invalidInput

def message : IoFailure → String
  | .system e => e.text ++ " (os error " ++ toString e.number ++ ")"
  | .plain kind => kind.message
  | .nulInPath => "file name contained an unexpected NUL byte"

end IoFailure

end LeaseKeeper
