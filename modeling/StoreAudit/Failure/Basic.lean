import StoreAudit.Failure.Errno

/-!
# Failures

What can go wrong, by cause. `Failure.code` sorts the causes into the classes that callers act on
and `Failure.message` gives the wording; a message is read as zero-terminated text, so it ends
before the first zero byte of anything quoted in it.
-/

namespace StoreAudit

/-- The classes of failures that are no system errors. -/
inductive FailureCode where
  | invalidArguments
  | notARepository
  | badRef
  | gitFailed
  | scanFailed
  | badConfig
  | locked
  | interrupted
  deriving DecidableEq, Repr

/-- The causes of failure. -/
inductive Failure where
  /-- A text that should name a digest does not. -/
  | invalidDigest (text : Bytes)
  /-- A text that should name an object does not. -/
  | invalidObjectName (name : Bytes)
  /-- More than one range argument. -/
  | tooManyRefs
  /-- A ref argument that names no commit. -/
  | invalidRef (argument : Bytes)
  /-- A ref that a look-up does not know. -/
  | unknownRef (expression : Bytes)
  /-- A look-up that answered with another number of refs than asked for. -/
  | unresolvedRef (argument : Bytes)
  /-- No repository around the directory. -/
  | notARepository
  /-- A git command that ended badly, with what it wrote to its error stream. -/
  | commandFailed (command errorText : Bytes)
  /-- A git command that ended in the middle of its answer. -/
  | shortRead (command : Bytes)
  /-- A git co-process that ended instead of answering. -/
  | endedUnexpectedly (command : Bytes)
  /-- A look-up of a name with a line separator in it. -/
  | badLookupName
  /-- An object header of an unknown shape. -/
  | unexpectedHeader (line : Bytes)
  /-- An object whose content is not followed by a line separator. -/
  | unexpectedTrailer (name : Bytes)
  /-- A tree record of an unknown shape. -/
  | unexpectedTreeRecord (record : Bytes)
  /-- An index header of an unknown shape. -/
  | unexpectedIndexHeader (header : Bytes)
  /-- An index header without a path. -/
  | truncatedIndex
  /-- A listed object that git does not have. -/
  | missingObject (name : Bytes)
  /-- A file that should have been a pointer, among the objects to verify. -/
  | unexpectedScanError (path : Bytes)
  /-- The store lock is taken. -/
  | locked (root owner lockPath : Bytes)
  /-- The user asked to stop. -/
  | interrupted
  /-- A failure of a collaborator, with its class and wording. -/
  | reported (code : FailureCode) (message : Bytes)
  /-- A failed system call; the context names the call and what it was applied to. -/
  | system (errno : Errno) (context : Option Bytes)
  /-- A failure of no class at all, with its wording. -/
  | foreign (message : Bytes)
  deriving DecidableEq, Repr

/-- How a failure is told apart by callers. -/
inductive FailureKind where
  | coded (code : FailureCode)
  | system (errno : Errno)
  | foreign
  deriving DecidableEq, Repr

namespace Failure

/-- The kind of a failure. -/
def kind : Failure → FailureKind
  | invalidDigest _ | invalidObjectName _ | tooManyRefs | badLookupName => .coded .invalidArguments
  | invalidRef _ | unknownRef _ | unresolvedRef _ => .coded .badRef
  | notARepository => .coded .notARepository
  | commandFailed _ _ | shortRead _ | endedUnexpectedly _ => .coded .gitFailed
  | unexpectedHeader _ | unexpectedTrailer _ | unexpectedTreeRecord _ | unexpectedIndexHeader _
  | truncatedIndex | missingObject _ | unexpectedScanError _ => .coded .scanFailed
  | locked _ _ _ => .coded .locked
  | interrupted => .coded .interrupted
  | reported code _ => .coded code
  | system errno _ => .system errno
  | foreign _ => .foreign

/-- The whole wording, before it is cut at a zero byte. -/
def wording : Failure → Bytes
  | invalidDigest text => ascii "Invalid object hash '" ++ text ++ ascii "'"
  | invalidObjectName name => ascii "Invalid oid '" ++ name ++ ascii "'"
  | tooManyRefs => ascii "Expected at most one ref argument"
  | invalidRef argument => ascii "Invalid ref argument: " ++ argument
  | unknownRef expression => ascii "bad ref " ++ expression
  | unresolvedRef argument => ascii "Could not resolve " ++ argument
  | notARepository => ascii "Not in a git repository"
  | commandFailed command errorText =>
    command ++ ascii " failed" ++ if errorText.isEmpty then [] else ascii ": " ++ errorText
  | shortRead command => ascii "Short read from " ++ command
  | endedUnexpectedly command => command ++ ascii " exited unexpectedly"
  | badLookupName => ascii "Bad object name"
  | unexpectedHeader line => ascii "Unexpected cat-file output: " ++ line
  | unexpectedTrailer name => ascii "Unexpected cat-file output after " ++ name
  | unexpectedTreeRecord record => ascii "Unexpected ls-tree output: " ++ record
  | unexpectedIndexHeader header => ascii "Unexpected diff-index output: " ++ header
  | truncatedIndex => ascii "Truncated diff-index output"
  | missingObject name => ascii "Missing object " ++ name
  | unexpectedScanError path => ascii "Unexpected scan error for " ++ path
  | locked root owner lockPath =>
    ascii "Store at " ++ root ++ ascii " is locked by pid " ++ owner ++ ascii " (remove " ++
      lockPath ++ ascii " if that process is gone)"
  | interrupted => ascii "Interrupted"
  | reported _ message => message
  | system errno none => errno.text
  | system errno (some context) => context ++ ascii ": " ++ errno.text
  | foreign message => message

/-- The wording that callers see. -/
def message (failure : Failure) : Bytes := failure.wording.beforeNul

/-- A system call that failed in a context. -/
def inCall (context : Bytes) (errno : Errno) : Failure := .system errno (some context)

end Failure

end StoreAudit
