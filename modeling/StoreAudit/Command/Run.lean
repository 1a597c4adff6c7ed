import StoreAudit.Command.Arguments
import StoreAudit.Command.Help
import StoreAudit.Command.Settings

/-!
# The command line

The program runs one subcommand. Its exit status is 0 or 1 by the verdict of a check, and 2 for
whatever kept a check from its end.
-/

namespace StoreAudit

/-- What a run of the program finds around it. -/
structure Surroundings where
  repository : Repository
  configuration : Configuration := {}
  /-- Whether the user wants to follow what happens. -/
  tracing : Bool := false

/-- What a run of the program leaves besides its traces in the session. -/
structure CommandResult where
  status : Nat
  output : Bytes
  deriving DecidableEq, Repr

/-- What a check that is prepared is about to do. -/
structure CheckPlan where
  store : Store
  options : CheckOptions
  source : ScanSource

/-- Carries out a planned check. -/
def CheckPlan.carryOut (plan : CheckPlan) : Audit Verdict :=
  plan.store.check plan.options plan.source

/-- The exit status of a program that could not do its work. -/
def fatalStatus : Nat := 2

namespace Surroundings

/-- Opens the journal of a store; a run goes on without it. -/
def openJournal (store : Store) : StateM Session Unit := do
  let path := store.journalPath
  let session ← get
  let (journal, files, failure) := session.journal.openAt session.files path
  set { session with journal, files }
  match failure with
  | none => pure ()
  | some problem =>
    if problem = .noFile then
      Audit.showError (ascii "Could not open logfile: " ++ path.beforeNul ++ [Ascii.newline])
    Audit.warn (ascii "Cannot open log " ++ path.beforeNul)

/-- Prepares a check with arguments that are fine. -/
def plan (surroundings : Surroundings) (arguments : CheckArguments) : Audit CheckPlan := do
  let configuration := surroundings.configuration
  match configuration.loadFailure with
  | some failure => throw failure
  | none => pure ()
  let store := Store.ofPath configuration.storagePath
  if surroundings.tracing then openJournal store
  let jobs ← match arguments.jobs with
    | some jobs => pure (jobs : Int)
    | none => configuration.jobs
  let range ← ScanRange.resolve arguments.refs surroundings.repository.resolver
  Audit.note (ascii "fsck: store " ++ store.root.beforeNul ++ ascii ", range " ++
    range.start.beforeNul ++ ascii ".." ++ range.stop.beforeNul ++
    if range.useIndex then ascii " + index" else [])
  let options : CheckOptions :=
    { dryRun := arguments.dryRun
      objects := arguments.objects
      pointers := arguments.pointers
      jobs }
  let source := surroundings.repository.source range { excluded := configuration.fetchExclude }
  pure { store, options, source }

/-- Does a check with arguments that are fine, given how planned checks are carried out. -/
def check (carryOut : CheckPlan → Audit Verdict) (surroundings : Surroundings)
    (arguments : CheckArguments) : Audit Verdict := do
  carryOut (← surroundings.plan arguments)

end Surroundings

namespace CommandLine

/-- Does a check with arguments as they are given. -/
def runCheck (check : CheckArguments → Audit Verdict) (arguments : List Bytes) :
    StateM Session CommandResult := do
  match CheckArguments.parse arguments with
  | .error problem =>
    Audit.showError (problem.message ++ [Ascii.newline])
    pure ⟨fatalStatus, if problem.showsUsage then HelpText.usageLine else []⟩
  | .ok arguments =>
    match ← (check arguments).run with
    | .ok verdict => pure ⟨verdict.status, (← get).report.text⟩
    | .error failure =>
      Audit.showError (ascii "Error: " ++ failure.message ++ [Ascii.newline])
      Audit.note (ascii "fsck: " ++ failure.message)
      pure ⟨fatalStatus, (← get).report.text⟩

/-- Runs a subcommand with its arguments. -/
def runSubcommand (check : CheckArguments → Audit Verdict) (command : Subcommand)
    (arguments : List Bytes) : StateM Session CommandResult :=
  match command with
  | .fsck => runCheck check arguments
  | .help =>
    pure ⟨0, match arguments with
      | [] => HelpText.overview
      | name :: _ => HelpText.topic name⟩
  | .version => pure ⟨0, HelpText.version⟩

/-- Runs the program with its arguments, given how checks are done and whether the user wants to
follow what happens. -/
def run (check : CheckArguments → Audit Verdict) (tracing : Bool) (arguments : List Bytes) :
    StateM Session CommandResult :=
  match arguments.map Bytes.beforeNul with
  | [] => pure ⟨0, HelpText.overview⟩
  | name :: arguments =>
    match Subcommand.ofName? name with
    | none => pure ⟨fatalStatus, HelpText.unknownCommand name ++ HelpText.overview⟩
    | some command => do
      if tracing then
        modify fun session =>
          { session with journal := { session.journal with level := Journal.traceLevel } }
      Audit.trace (ascii "Executing '" ++ name ++ ascii "'")
      let result ← runSubcommand check command arguments
      modify fun session => { session with journal := session.journal.close }
      pure result

end CommandLine

namespace Surroundings

/-- Runs the program with its arguments, given how planned checks are carried out. -/
def runBy (carryOut : CheckPlan → Audit Verdict) (surroundings : Surroundings) :
    List Bytes → StateM Session CommandResult :=
  CommandLine.run (surroundings.check carryOut) surroundings.tracing

/-- Runs the program with its arguments. -/
def run (surroundings : Surroundings) : List Bytes → StateM Session CommandResult :=
  surroundings.runBy CheckPlan.carryOut

end Surroundings

namespace Repository

/-- Does a check in a repository as its settings say. -/
def check (repository : Repository) (reader : SettingsReader) (tracing : Bool)
    (arguments : CheckArguments) : Audit Verdict := do
  let configuration ← repository.consult reader
  Surroundings.check CheckPlan.carryOut { repository, configuration, tracing } arguments

/-- Runs the program in a repository. -/
def runProgram (repository : Repository) (reader : SettingsReader) (tracing : Bool) :
    List Bytes → StateM Session CommandResult :=
  CommandLine.run (repository.check reader tracing) tracing

end Repository

end StoreAudit
