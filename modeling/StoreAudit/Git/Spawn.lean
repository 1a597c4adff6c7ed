import StoreAudit.Failure.Basic

/-!
# Starting processes

To start a child, the system is asked for a new file that takes what the child writes to its error
stream, for pipes, and for the process itself. It can refuse each of these.
-/

namespace StoreAudit

/-- A system call by which a child is started. -/
inductive StartCall where
  /-- Makes the file for the error stream. -/
  | makeFile
  /-- Keeps a descriptor from other children. -/
  | closeOnExec
  | pipe
  | fork
  deriving DecidableEq, Repr

/-- The name of a call in the failure that it causes. -/
def StartCall.name : StartCall → Bytes
  | makeFile => ascii "mkstemp"
  | closeOnExec => ascii "fcntl(FD_CLOEXEC)"
  | pipe => ascii "pipe"
  | fork => ascii "fork"

/-- Whether the system takes the byte for the name of a new file: a letter or a digit. -/
def Spawn.isPlain (byte : UInt8) : Bool :=
  48 ≤ byte && byte ≤ 57 || 65 ≤ byte && byte ≤ 90 || 97 ≤ byte && byte ≤ 122

/-- What the system does when a child is started: the six bytes that make the name of its file a new
one, and the call that it refuses, if it refuses one, with the reason. -/
structure Spawn where
  letters : Bytes := List.replicate 6 Ascii.zero
  refusal : Option (StartCall × Errno) := none
  six : letters.length = 6 := by decide
  plain : letters.all Spawn.isPlain = true := by decide
  deriving DecidableEq

namespace Spawn

/-- The system refuses nothing. -/
def granted : Spawn := {}

/-- The beginning of the paths of files for error streams. -/
def filePrefix : Bytes := ascii "/tmp/lfs-git-stderr."

/-- The path of the file for the error stream. -/
def path (spawn : Spawn) : Bytes := filePrefix ++ spawn.letters

/-- The failure to start the child, if a call is refused. -/
def failure? (spawn : Spawn) : Option Failure :=
  spawn.refusal.map fun (call, errno) => .inCall call.name errno

/-- Whether the file for the error stream is made. -/
def makesFile (spawn : Spawn) : Bool := spawn.refusal.all fun (call, _) => call != .makeFile

end Spawn

end StoreAudit
