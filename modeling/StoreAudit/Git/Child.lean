import StoreAudit.Git.Reader
import StoreAudit.Git.Transcript
import StoreAudit.Session

/-!
# Git children

A child is one running git command with a pipe to its input and one from its output. What it writes
to its error stream goes to a file of its own, and is part of the failure when it ends badly. The
operations on the pipes are pure; a `PipeError` names the system call that failed.

A command can be started again. What was read of its output and not handed out is kept, and so is
the knowledge that the output had ended, after which no output is read any more. The child that was
started before goes on by itself; whoever waits without a child of his own is given it.
-/

namespace StoreAudit

/-- How a child reacts to its input. -/
inductive Reaction where
  /-- It reads nothing. -/
  | ignore
  /-- It copies what it reads. -/
  | echo
  /-- It answers each line; the bytes are those of the line that is not complete yet. -/
  | lookup (mode : LookupMode) (partialLine : Bytes)
  deriving DecidableEq, Repr

/-- Whether the reaction is that of a look-up command. -/
def Reaction.isLookup : Reaction → Bool
  | lookup _ _ => true
  | _ => false

/-- A git command and, once it was started, its pipes. -/
structure Child where
  repository : Repository
  arguments : List Bytes
  started : Bool := false
  /-- The place of the child among those of the session. -/
  index : Nat := 0
  reaction : Reaction := .ignore
  output : PipeReader := {}
  /-- Whether our end of its input is open. -/
  inputOpen : Bool := false
  errorText : Bytes := []
  /-- How it ends, once that is settled. -/
  ending : Option Ending := none
  /-- Whether nobody has waited for it yet. -/
  unreaped : Bool := false
  /-- Whether the end of an output was seen before the start, so that this one is never read. -/
  deaf : Bool := false
  /-- Whether some of its output was read, for a look-up command since it was last asked. -/
  heard : Bool := false
  /-- How many bytes wait at the input of a child that reads nothing. -/
  unread : Nat := 0
  /-- The places and the ends of the children that were started before and not waited for. -/
  earlier : List (Nat × Ending) := []

/-- A failed operation on a pipe of a child, or the failure to wait for one. -/
inductive PipeError where
  | read
  | write (errno : Errno)
  | wait
  deriving DecidableEq, Repr

namespace Child

/-- The command as it is shown. -/
def command (child : Child) : Bytes := ascii "git " ++ Bytes.join Ascii.space child.arguments

/-- The failure that a pipe error is. -/
def failureOf (child : Child) : PipeError → Failure
  | .read => .inCall (ascii "read(" ++ child.command ++ ascii ")") .badDescriptor
  | .write errno => .inCall (ascii "write(" ++ child.command ++ ascii ")") errno
  | .wait => .inCall (ascii "waitpid") .noChild

/-- The arguments of a look-up command. -/
def lookupArguments : LookupMode → List Bytes
  | .headers => [ascii "cat-file", ascii "--batch-check"]
  | .contents => [ascii "cat-file", ascii "--batch"]

/-- The mode of a look-up command. -/
def lookupMode? (arguments : List Bytes) : Option LookupMode :=
  if arguments = lookupArguments .headers then some .headers
  else if arguments = lookupArguments .contents then some .contents
  else none

/-- The children that nobody waits for once the command is started again. -/
def leftBehind (child : Child) : List (Nat × Ending) :=
  child.earlier ++
    if child.unreaped then child.ending.toList.map fun ending => (child.index, ending) else []

/-- The child at the start of the command, without what makes one command differ from another. -/
def renewed (child : Child) (index : Nat) : Child :=
  { repository := child.repository, arguments := child.arguments
    started := true, index, inputOpen := true, unreaped := true
    output := { child.output with arriving := [] }
    deaf := child.output.ended
    earlier := child.leftBehind }

/-- The child once the command runs. -/
def launch (child : Child) (index : Nat) : Child :=
  let renewed := child.renewed index
  match lookupMode? (child.arguments.map Bytes.beforeNul) with
  | some mode => { renewed with reaction := .lookup mode [] }
  | none =>
    let call := child.repository.transcript.call child.arguments
    { renewed with
      reaction := if call.echoes then .echo else .ignore
      errorText := call.errorText
      ending := if call.echoes then none else some call.ending
      output := { child.output with arriving := PipeReader.chunks call.output } }

/-- The child after it answered one line. -/
def answer (child : Child) (mode : LookupMode) (line : Bytes) : Child :=
  match child.ending with
  | some _ => child
  | none =>
    let reply := child.repository.transcript.lookup mode line
    { child with
      output :=
        { child.output with
          arriving :=
            if reply.text.isEmpty then child.output.arriving
            else child.output.arriving ++ [reply.text] }
      ending := reply.ending }

/-- The child after it read more input. -/
def receive (child : Child) (data : Bytes) : Child :=
  match child.reaction with
  | .ignore => { child with unread := child.unread + data.length }
  | .echo =>
    { child with output := { child.output with arriving := child.output.arriving ++ [data] } }
  | .lookup mode partialLine =>
    let input := partialLine ++ data
    let complete := (input.reverse.dropWhile (· != Ascii.newline)).reverse
    let answered := (Bytes.split Ascii.newline complete).foldl (·.answer mode ·) child
    { answered with reaction := .lookup mode (input.drop complete.length), heard := false }

/-- How many bytes a pipe holds. -/
def pipeSize : Nat := 65536

/-- Whether the end of the output of this child has been seen. -/
def hasEnded (child : Child) : Bool := child.output.ended && !child.deaf

/-- Whether a child that has ended, or is about to, is gone before more bytes can be written. One
that reads nothing takes as many as its input holds, and a look-up command is gone once its last
answer was read. -/
def isGone (child : Child) (more : Nat) : Bool :=
  child.hasEnded ||
    match child.reaction with
    | .ignore => child.unread + more > pipeSize
    | .echo => false
    | .lookup _ _ => child.heard && child.output.arriving.isEmpty

/-- Writes to the input of a child. -/
def write (child : Child) (data : Bytes) : Except PipeError Child :=
  if data.isEmpty then .ok child
  else if !child.inputOpen then .error (.write .badDescriptor)
  else if child.ending.isSome && child.isGone data.length then .error (.write .brokenPipe)
  else .ok (child.receive data)

/-- The child once it sees the end of its input. -/
def endInput (child : Child) : Child :=
  match child.ending with
  | some _ => child
  | none =>
    match child.reaction with
    | .ignore => child
    | .echo =>
      { child with ending := some (child.repository.transcript.call child.arguments).ending }
    | .lookup mode partialLine =>
      let answered := if partialLine.isEmpty then child else child.answer mode partialLine
      match answered.ending with
      | some _ => answered
      | none =>
        let last := child.repository.transcript.lookupEnd mode
        { answered with
          errorText := answered.errorText ++ last.errorText
          ending := some last.ending }

/-- Closes our end of the input. -/
def closeInput (child : Child) : Child :=
  if child.inputOpen then { child.endInput with inputOpen := false } else child

/-- Whether reads reach a pipe, or the end that was seen before. -/
def isReadable (child : Child) : Bool := child.started || child.output.ended

/-- The child after a read from its output. -/
def listen (child : Child) (output : PipeReader) : Child :=
  { child with
    output, heard := child.heard || output.arriving.length < child.output.arriving.length }

/-- Reads up to the next delimiter. -/
def readLine (child : Child) (delimiter : UInt8) : Except PipeError (Option Bytes × Child) :=
  if child.isReadable then
    let (line, output) := child.output.readLine delimiter
    .ok (line, child.listen output)
  else .error .read

/-- Reads a number of bytes; nothing if the output ends before. -/
def readExact (child : Child) (count : Nat) : Except PipeError (Option Bytes × Child) :=
  if child.isReadable || count ≤ child.output.pending.length then
    let (data, output) := child.output.readExact count
    .ok (data, child.listen output)
  else .error .read

/-- Whether the child has had its say on the error stream: it is over, or it is a call, which says
it before anything else, and was heard from. -/
def hasComplained (child : Child) : Bool :=
  child.started &&
    (!child.unreaped || child.hasEnded || (child.heard && !child.reaction.isLookup))

/-- What the child wrote to its error stream, without the blanks at its ends. -/
def errorOutput (child : Child) : Bytes :=
  if child.hasComplained then child.errorText.trim else []

/-- Closes our end of the output. A child that still has output to write is ended by that, and what
a look-up command says at its end is not said. -/
def closeOutput (child : Child) : Child :=
  if child.output.arriving.isEmpty then child
  else
    { child with
      ending := some .killed
      errorText := if child.reaction.isLookup then [] else child.errorText
      output := { child.output with arriving := [] } }

/-- Drops the rest of the output and waits for the end: the status, and the child that is gone. -/
def reap (child : Child) : Except PipeError (Int × Child) :=
  if !child.isReadable then .error .read
  else
    let closed := { child with output := child.output.drain }.closeInput.closeOutput
    if child.unreaped then
      .ok ((closed.ending.map Ending.status).getD (-1), { closed with unreaped := false })
    else match child.earlier with
      | [] => .error .wait
      | (index, ending) :: earlier => .ok (ending.status, { closed with index, earlier })

/-- A child that has not been started. -/
def idle (repository : Repository) (arguments : List Bytes) : Child := { repository, arguments }

/-- The bytes that a read of a number of bytes must have delivered. -/
def demand (child : Child) : Option Bytes → Audit Bytes
  | some data => pure data
  | none => Audit.failUnlessInterrupted (.shortRead child.command)

/-- Adds the child to those of the session. -/
def enter (child : Child) : StateM Session Child :=
  modifyGet fun session =>
    (child.launch session.children.length, { session with children := session.children ++ [none] })

/-- Starts a child, unless the system refuses. -/
def start (child : Child) : Audit Child := do
  Audit.trace (ascii "git -C " ++ child.repository.directory.beforeNul ++ Ascii.space ::
    (Bytes.join Ascii.space child.arguments).beforeNul)
  let spawn ← Audit.spawn
  match spawn.failure? with
  | some failure => throw failure
  | none => child.enter

/-- Waits for a child and returns its status. -/
def finish (child : Child) : Audit (Int × Child) := do
  match child.reap with
  | .error problem => throw (child.failureOf problem)
  | .ok (status, reaped) =>
    modify fun session =>
      { session with children := session.children.set reaped.index (some status) }
    pure (status, reaped)

/-- Fails if a child that was waited for ended badly. -/
def accept (child : Child) (status : Int) : Audit Unit := do
  if status ≠ 0 then
    let errorText := child.errorOutput
    Audit.note (child.command.beforeNul ++ ascii " exited with " ++ Decimal.ofInt status ++
      ascii ": " ++ errorText.beforeNul)
    Audit.failUnlessInterrupted (.commandFailed child.command errorText)

/-- Waits for a child that must end well. -/
def wait (child : Child) : Audit Unit := do
  let (status, reaped) ← child.finish
  reaped.accept status

end Child

namespace Repository

/-- Starts a command that gets no input. -/
def start (repository : Repository) (arguments : List Bytes) : Audit Child := do
  let child ← (Child.idle repository arguments).start
  pure child.closeInput

/-- Runs a command to its end: its status and its output. -/
def tryRun (repository : Repository) (arguments : List Bytes) : Audit (Int × Bytes) := do
  let child ← repository.start arguments
  let (output, rest) := child.output.readAll
  let (status, _) ← { child with output := rest }.finish
  pure (status, output)

/-- Runs a command that must end well: its output. -/
def run (repository : Repository) (arguments : List Bytes) : Audit Bytes := do
  let child ← repository.start arguments
  let (output, rest) := child.output.readAll
  { child with output := rest }.wait
  pure output

end Repository

end StoreAudit
