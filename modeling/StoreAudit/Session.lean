import StoreAudit.Git.Spawn
import StoreAudit.Journal
import StoreAudit.Report
import StoreAudit.Signal

/-!
# Sessions

Everything that a run of the program can change: the files, the journal, what is shown on the error
stream, the report, the stop signal, and the record of the children it started, the paths it opened
for reading and the changes it attempted; besides, what the system is going to do when children are
started. An `Audit` is a step of a run; it may fail, and what it
changed before it failed stays changed.
-/

namespace StoreAudit

/-- A change to the files. -/
inductive Change where
  | makeDirectories (path : Bytes)
  | makeLink (target path : Bytes)
  | remove (path : Bytes)
  | rename (source target : Bytes)
  | write (path data : Bytes)
  deriving DecidableEq, Repr

/-- Carries out a change as far as possible. -/
def FileTree.perform (files : FileTree) : Change → FileTree × Except Errno Unit
  | .makeDirectories path => files.makeDirectories path
  | .makeLink target path => settle (files.makeLink target path)
  | .remove path => settle (files.remove path)
  | .rename source target => settle (files.rename source target)
  | .write path data => files.writeFile path data
where
  /-- A change that happens or leaves the files alone. -/
  settle : Except Errno FileTree → FileTree × Except Errno Unit
    | .ok changed => (changed, .ok ())
    | .error errno => (files, .error errno)

/-- The passes of a check. -/
inductive Pass where
  | objects
  | pointers
  deriving DecidableEq, Repr

/-- The state of a run. -/
structure Session where
  files : FileTree := {}
  /-- The number of the running process. -/
  pid : Nat := 1
  journal : Journal := {}
  /-- What the error stream shows. -/
  errors : Bytes := []
  report : Report := {}
  signal : Signal := {}
  /-- For every child started, in order, the status it was found to have ended with, once it was
  waited for. -/
  children : List (Option Int) := []
  /-- What the system does when the next children are started, one after the other; it refuses
  nothing to those that come after these. -/
  spawns : List Spawn := []
  /-- Every file made for the error stream of a child, in order. Each was opened for reading and
  writing as it was made, and removed at once. -/
  spools : List Bytes := []
  /-- Every other path opened for reading, in order. -/
  opened : List Bytes := []
  /-- Every change attempted, in order, but for the files of error streams. -/
  changes : List Change := []
  /-- The passes begun, in order. -/
  passes : List Pass := []

/-- A step of a run. -/
abbrev Audit := ExceptT Failure (StateM Session)

namespace Audit

/-- The step that does `body` and then, however that ended, `cleanup`. -/
def ensuring {α : Type} (body : Audit α) (cleanup : StateM Session Unit) : Audit α := fun session =>
  let (outcome, after) := body session
  let ((), cleaned) := cleanup after
  (outcome, cleaned)

/-- Shows text on the error stream. -/
def showError (text : Bytes) : StateM Session Unit :=
  modify fun session => { session with errors := session.errors ++ text }

/-- An event for the journal; its text is a line. -/
def log (level : Int) (line : Bytes) : StateM Session Unit :=
  modify fun session =>
    let text := line ++ [Ascii.newline]
    { session with
      files := session.journal.write session.files level text
      errors := session.errors ++ session.journal.shown level text }

/-- An event that the user should know of. -/
def warn (line : Bytes) : StateM Session Unit := log Journal.urgentLevel (ascii "WARNING: " ++ line)

/-- An event for the record. -/
def note (line : Bytes) : StateM Session Unit := log Journal.noteLevel line

/-- A detail for tracing. -/
def trace (line : Bytes) : StateM Session Unit := log Journal.traceLevel line

/-- The files, of which one is about to be opened for reading. -/
def inspect (path : Bytes) : StateM Session FileTree :=
  modifyGet fun session => (session.files, { session with opened := session.opened ++ [path] })

/-- Attempts a change to the files. -/
def attempt (change : Change) : StateM Session (Except Errno Unit) :=
  modifyGet fun session =>
    let (files, outcome) := session.files.perform change
    (outcome, { session with files := files, changes := session.changes ++ [change] })

/-- A change that must succeed; the context is for the failure. -/
def change (context : Bytes) (change : Change) : Audit Unit := do
  match ← attempt change with
  | .ok () => pure ()
  | .error errno => throw (.inCall context errno)

/-- Looks at the stop signal. -/
def poll : StateM Session Bool :=
  modifyGet fun session =>
    (session.signal.requested, { session with signal := session.signal.poll })

/-- Fails if the user asked to stop. -/
def checkInterrupt : Audit Unit := do
  if ← poll then throw .interrupted

/-- Fails for a reason, unless the user asked to stop, which then is the reason. -/
def failUnlessInterrupted {α : Type} (failure : Failure) : Audit α := do
  if ← poll then throw .interrupted
  throw failure

/-- Has the system do what it does to start the next child. -/
def spawn : StateM Session Spawn :=
  modifyGet fun session =>
    let spawn := session.spawns.headD .granted
    (spawn, { session with
      spawns := session.spawns.tail
      spools := session.spools ++ if spawn.makesFile then [spawn.path] else [] })

/-- Begins a pass of a check. -/
def begin (pass : Pass) : StateM Session Unit :=
  modify fun session => { session with passes := session.passes ++ [pass] }

/-- Adds a finding to the report. -/
def report (finding : Finding) : StateM Session Unit := do
  modify fun session => { session with report := session.report.add finding }
  note (ascii "fsck: " ++ finding.line.beforeNul)

/-- Adds a line to the report. -/
def print (line : Bytes) : StateM Session Unit :=
  modify fun session => { session with report := session.report.print line }

end Audit

end StoreAudit
