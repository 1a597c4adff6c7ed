import StoreAudit.Command.Run
import StoreAudit.Proofs.Check.Verdicts
import StoreAudit.Proofs.Command.Arguments
import StoreAudit.Proofs.Git.Scanning
import StoreAudit.Proofs.Scan.Trees

/-!
# The exit status of a check

A run of the program that checks a store ends with status 0 if there was nothing to find, with 1 if
there was, and with 2 exactly if something kept it from telling: arguments that cannot be used, a
configuration or a ref that cannot be read, or a hindrance of the check itself
(`Surroundings.runBy_exits`).
-/

namespace StoreAudit

open Audit

section Refs

private theorem Audit.Scanning.mapM {α β : Type} {step : α → Audit β}
    (each : ∀ item, Scanning (step item)) (items : List α) :
    Scanning (items.mapM step : Audit (List β)) := by
  induction items with
  | nil => exact .pure _
  | cons item rest ih =>
      rw [List.mapM_cons]
      exact .bind (each item) fun _ => .bind ih fun _ => .pure _

/-- A step of a scan that is taken unless something is wrong. -/
theorem Audit.scanning_unless {α : Type} {rest : Audit α} (continued : Scanning rest) (wrong : Prop)
    [Decidable wrong] (failure : Failure) :
    Scanning (if wrong then (throw failure : Audit PUnit) >>= fun _ => rest else rest) := by
  split
  · exact .bind (.throw _) fun _ => continued
  · exact continued

private theorem Repository.scanning_resolve (repository : Repository) (expression : Bytes) :
    Scanning (repository.resolve expression) := by
  unfold Repository.resolve
  refine scanning_unless ?_ _ _
  refine .bind (repository.scanning_tryRun _) fun (status, output) => ?_
  exact scanning_unless (.pure _) _ _

private theorem ScanRange.scanning_resolve (repository : Repository) (arguments : List Bytes) :
    Scanning (ScanRange.resolve arguments repository.resolver) := by
  unfold ScanRange.resolve
  split
  · exact .bind (repository.scanning_resolve (ascii "HEAD")) fun _ =>
      .bind (.lift (heedless_trace _)) fun _ => .pure _
  · refine scanning_unless ?_ _ _
    refine .bind (.mapM repository.scanning_resolve _) fun commits => ?_
    refine scanning_unless ?_ _ _
    exact .bind (.lift (heedless_trace _)) fun _ => .pure _
  · exact .throw _

end Refs

namespace Surroundings

variable (surroundings : Surroundings) {arguments : CheckArguments} {session : Session}

/-- The number of jobs, or why it cannot be told. -/
def jobsFor (arguments : CheckArguments) : Except Failure Int :=
  match arguments.jobs with
  | some jobs => .ok jobs
  | none => surroundings.configuration.jobs

/-- The plan to check a range. -/
def planFor (arguments : CheckArguments) (jobs : Int) (range : ScanRange) : CheckPlan where
  store := Store.ofPath surroundings.configuration.storagePath
  options :=
    { dryRun := arguments.dryRun
      objects := arguments.objects
      pointers := arguments.pointers
      jobs }
  source := surroundings.repository.source range
    { excluded := surroundings.configuration.fetchExclude }

/-- What a plan comes to, where nobody wants to follow what happens. -/
inductive Plans (arguments : CheckArguments) (session : Session) :
    Except Failure CheckPlan × Session → Prop
  | unconfigured {failure : Failure} : surroundings.configuration.loadFailure = some failure →
      Plans arguments session (.error failure, session)
  | jobless {failure : Failure} : surroundings.configuration.loadFailure = none →
      surroundings.jobsFor arguments = .error failure →
      Plans arguments session (.error failure, session)
  | unresolved {failure : Failure} {after : Session} :
      surroundings.configuration.loadFailure = none →
      ScanRange.resolve arguments.refs surroundings.repository.resolver session =
        (.error failure, after) →
      Plans arguments session (.error failure, after)
  | planned {jobs : Int} {range : ScanRange} {after : Session} {line : Bytes} :
      surroundings.configuration.loadFailure = none →
      surroundings.jobsFor arguments = .ok jobs →
      ScanRange.resolve arguments.refs surroundings.repository.resolver session =
        (.ok range, after) →
      Plans arguments session (.ok (surroundings.planFor arguments jobs range), (note line after).2)

private theorem plans_plan (untraced : surroundings.tracing = false) (arguments : CheckArguments)
    (session : Session) :
    surroundings.Plans arguments session (surroundings.plan arguments session) := by
  unfold plan
  dsimp only
  rw [untraced]
  cases loaded : surroundings.configuration.loadFailure with
  | some failure => exact .unconfigured loaded
  | none =>
      have resolves {jobs : Int} (told : surroundings.jobsFor arguments = .ok jobs)
          {next : ScanRange → Audit CheckPlan}
          (notes : ∀ range after, ∃ line, next range after =
            (.ok (surroundings.planFor arguments jobs range), (note line after).2)) :
          surroundings.Plans arguments session
            ((ScanRange.resolve arguments.refs surroundings.repository.resolver >>= next)
              session) := by
        rcases shape : ScanRange.resolve arguments.refs surroundings.repository.resolver session
          with ⟨failure | range, after⟩
        · rw [bind_apply_of_error shape]
          exact .unresolved loaded shape
        · obtain ⟨line, same⟩ := notes range after
          rw [bind_apply_of_ok shape, same]
          exact .planned loaded told shape
      cases given : arguments.jobs with
      | some jobs => exact resolves (by rw [jobsFor, given]) fun range after => ⟨_, rfl⟩
      | none =>
          cases told : surroundings.configuration.jobs with
          | error failure => exact .jobless loaded (by rw [jobsFor, given, told])
          | ok jobs => exact resolves (by rw [jobsFor, given, told]) fun range after => ⟨_, rfl⟩

private theorem Plans.scans {result : Except Failure CheckPlan × Session}
    (plans : surroundings.Plans arguments session result) : session.Scans result.2 := by
  have resolves :=
    (ScanRange.scanning_resolve surroundings.repository arguments.refs).within session
  cases plans with
  | unconfigured | jobless => exact refl session
  | unresolved _ shape =>
      rw [shape] at resolves
      exact resolves
  | planned _ _ shape =>
      rw [shape] at resolves
      exact IsTrans.trans _ _ _ resolves ((heedless_note _).within _)

private theorem plan_fails_iff (untraced : surroundings.tracing = false) :
    (∃ failure, (surroundings.plan arguments session).1 = .error failure) ↔
      (∃ failure, surroundings.configuration.loadFailure = some failure) ∨
        (∃ failure, surroundings.jobsFor arguments = .error failure) ∨
        ∃ failure, (ScanRange.resolve arguments.refs surroundings.repository.resolver session).1 =
          .error failure := by
  have plans := surroundings.plans_plan untraced arguments session
  generalize surroundings.plan arguments session = result at plans ⊢
  cases plans with
  | unconfigured loaded => exact iff_of_true ⟨_, rfl⟩ (.inl ⟨_, loaded⟩)
  | jobless _ told => exact iff_of_true ⟨_, rfl⟩ (.inr (.inl ⟨_, told⟩))
  | unresolved _ shape => exact iff_of_true ⟨_, rfl⟩ (.inr (.inr ⟨_, by rw [shape]⟩))
  | planned loaded told shape =>
      refine iff_of_false nofun ?_
      rw [loaded, told, shape]
      rintro (⟨_, ⟨⟩⟩ | ⟨_, ⟨⟩⟩ | ⟨_, ⟨⟩⟩)

/-- The session in which the arguments of a check are read. -/
def called (session : Session) : Session := (trace (ascii "Executing 'fsck'") session).2

/-- A run with these words comes to a plan, which is carried out in a session. -/
def Begins (words : List Bytes) (session : Session) (plan : CheckPlan) (begun : Session) : Prop :=
  ∃ arguments, CheckArguments.parse words = .ok arguments ∧
    surroundings.plan arguments (called session) = (.ok plan, begun)

/-- The later session differs from the earlier one as after telling the user how a run ended. -/
structure Tells (before after : Session) : Prop where
  changes : after.changes = before.changes
  passes : after.passes = before.passes
  report : after.report = before.report
  alike : after.Alike before
  files : (∀ place, before.journal.sink ≠ .file place) → after.files = before.files

/-- How a run with these words comes to its exit status. -/
inductive Exits (carryOut : CheckPlan → Audit Verdict) (words : List Bytes) (session : Session) :
    CommandResult × Session → Prop
  | unusable {problem : ArgumentProblem} {result : CommandResult × Session} :
      CheckArguments.parse words = .error problem → result.1.status = 2 →
      Tells (called session) result.2 → Exits carryOut words session result
  | unplanned {arguments : CheckArguments} {failure : Failure} {after : Session}
      {result : CommandResult × Session} : CheckArguments.parse words = .ok arguments →
      surroundings.plan arguments (called session) = (.error failure, after) →
      result.1.status = 2 → Tells after result.2 → Exits carryOut words session result
  | failed {plan : CheckPlan} {begun after : Session} {failure : Failure}
      {result : CommandResult × Session} : surroundings.Begins words session plan begun →
      carryOut plan begun = (.error failure, after) → result.1.status = 2 →
      Tells after result.2 → Exits carryOut words session result
  | concluded {plan : CheckPlan} {begun after : Session} {verdict : Verdict}
      {result : CommandResult × Session} : surroundings.Begins words session plan begun →
      carryOut plan begun = (.ok verdict, after) → result.1.status = verdict.status →
      Tells after result.2 → Exits carryOut words session result

end Surroundings

namespace CommandLine

open Surroundings (called Tells)

variable {check : CheckArguments → Audit Verdict} {words : List Bytes} {arguments : CheckArguments}
  {session after : Session}

/-- A check that fails ends with 2 and tells why. -/
theorem runCheck_of_error (read : CheckArguments.parse words = .ok arguments) {failure : Failure}
    (ended : check arguments session = (.error failure, after)) :
    let result := runCheck check words session
    result.1.status = 2 ∧ Tells after result.2 := by
  simp only [runCheck, read]
  rw [bind_state_apply, ExceptT.run, ended]
  refine ⟨rfl, rfl, rfl, rfl, ⟨rfl, rfl, rfl⟩, fun noFile => ?_⟩
  exact ((heedless_note _).within (showError _ after).2).files.eq_of_noFile noFile

private theorem runCheck_of_ok (read : CheckArguments.parse words = .ok arguments)
    {verdict : Verdict} (ended : check arguments session = (.ok verdict, after)) :
    let result := runCheck check words session
    result.1.status = verdict.status ∧ result.2 = after := by
  simp only [runCheck, read]
  rw [bind_state_apply, ExceptT.run, ended]
  exact ⟨rfl, rfl⟩

/-- The subcommand for checks notes its name, checks and closes the journal. -/
theorem run_fsck (check : CheckArguments → Audit Verdict) (arguments : List Bytes)
    (session : Session) :
    run check false (ascii "fsck" :: arguments) session =
      let ended := runCheck check (arguments.map Bytes.beforeNul) (called session)
      (ended.1, { ended.2 with journal := ended.2.journal.close }) := by
  unfold run
  rw [List.map_cons, show (ascii "fsck").beforeNul = ascii "fsck" by decide]
  dsimp only
  rw [show Subcommand.ofName? (ascii "fsck") = some .fsck by decide]
  rfl

end CommandLine

namespace Surroundings

variable (surroundings : Surroundings) {arguments : CheckArguments} {session : Session}

private theorem runBy_fsck (untraced : surroundings.tracing = false)
    (carryOut : CheckPlan → Audit Verdict) (arguments : List Bytes) (session : Session) :
    surroundings.runBy carryOut (ascii "fsck" :: arguments) session =
      let ended := CommandLine.runCheck (surroundings.check carryOut)
        (arguments.map Bytes.beforeNul) (called session)
      (ended.1, { ended.2 with journal := ended.2.journal.close }) := by
  unfold runBy
  rw [untraced, CommandLine.run_fsck]

/-- A run depends on how the plan that it comes to is carried out. -/
theorem runBy_congr (untraced : surroundings.tracing = false)
    {carryOut other : CheckPlan → Audit Verdict} {arguments : List Bytes}
    (same : ∀ plan begun, surroundings.Begins (arguments.map Bytes.beforeNul) session plan begun →
      carryOut plan begun = other plan begun) :
    surroundings.runBy carryOut (ascii "fsck" :: arguments) session =
      surroundings.runBy other (ascii "fsck" :: arguments) session := by
  have runs : CommandLine.runCheck (surroundings.check carryOut) (arguments.map Bytes.beforeNul)
        (called session) =
      CommandLine.runCheck (surroundings.check other) (arguments.map Bytes.beforeNul)
        (called session) := by
    unfold CommandLine.runCheck
    cases read : CheckArguments.parse (arguments.map Bytes.beforeNul) with
    | error problem => rfl
    | ok arguments =>
        have checks : surroundings.check carryOut arguments (called session) =
            surroundings.check other arguments (called session) := by
          unfold check
          rw [bind_apply, bind_apply]
          rcases planned : surroundings.plan arguments (called session) with ⟨_ | plan, begun⟩
          · rfl
          · exact same plan begun ⟨arguments, read, planned⟩
        dsimp only
        rw [bind_state_apply, bind_state_apply, ExceptT.run, ExceptT.run, checks]
  rw [runBy_fsck surroundings untraced, runBy_fsck surroundings untraced, runs]

private theorem exits_runBy (untraced : surroundings.tracing = false)
    (carryOut : CheckPlan → Audit Verdict) (arguments : List Bytes) (session : Session) :
    surroundings.Exits carryOut (arguments.map Bytes.beforeNul) session
      (surroundings.runBy carryOut (ascii "fsck" :: arguments) session) := by
  have closes {before after : Session} (tells : Tells before after) :
      Tells before { after with journal := after.journal.close } :=
    ⟨tells.changes, tells.passes, tells.report,
      ⟨tells.alike.signal, tells.alike.children, tells.alike.spawns⟩, tells.files⟩
  rw [runBy_fsck surroundings untraced]
  cases read : CheckArguments.parse (arguments.map Bytes.beforeNul) with
  | error problem =>
      refine .unusable read ?_ (closes ?_)
      · simp only [CommandLine.runCheck, read]
        rfl
      · simp only [CommandLine.runCheck, read]
        exact ⟨rfl, rfl, rfl, ⟨rfl, rfl, rfl⟩, fun _ => rfl⟩
  | ok arguments =>
      rcases planned : surroundings.plan arguments (called session) with ⟨failure | plan, begun⟩
      · have ended : surroundings.check carryOut arguments (called session) =
            (.error failure, begun) := bind_apply_of_error planned
        obtain ⟨status, tells⟩ := CommandLine.runCheck_of_error read ended
        exact .unplanned read planned status (closes tells)
      · have begins : surroundings.Begins _ session plan begun := ⟨arguments, read, planned⟩
        have carries : surroundings.check carryOut arguments (called session) =
            carryOut plan begun := bind_apply_of_ok planned
        rcases ended : carryOut plan begun with ⟨failure | verdict, after⟩ <;> rw [ended] at carries
        · obtain ⟨status, tells⟩ := CommandLine.runCheck_of_error read carries
          exact .failed begins ended status (closes tells)
        · obtain ⟨status, same⟩ := CommandLine.runCheck_of_ok read carries
          refine .concluded begins ended status (closes ?_)
          rw [same]
          exact ⟨rfl, rfl, rfl, ⟨rfl, rfl, rfl⟩, fun _ => rfl⟩

/-- The workers of planned checks follow a schedule. -/
def following (schedule : List PoolThread) (plan : CheckPlan) : Audit Verdict :=
  plan.store.checkFollowing plan.options plan.source schedule

/-- All threads that a run with these words starts come to their end by the schedule. -/
def Completes (words : List Bytes) (schedule : List PoolThread) (session : Session) : Prop :=
  ∀ plan begun, surroundings.Begins words session plan begun →
    plan.store.Completes plan.options plan.source schedule begun

/-- The refs that the words name cannot be resolved. -/
def Unresolved (words : List Bytes) (session : Session) : Prop :=
  ∃ arguments failure, CheckArguments.parse words = .ok arguments ∧
    (ScanRange.resolve arguments.refs surroundings.repository.resolver (called session)).1 =
      .error failure

/-- The words ask for a dry run: they are arguments that do, or have the switch among the options.
-/
def AsksDry (words : List Bytes) : Prop :=
  (∃ arguments, CheckArguments.parse words = .ok arguments ∧ arguments.dryRun = true) ∨
    ∃ before switch rest, words = before ++ switch :: rest ∧ ascii "--" ∉ before ∧
      CheckArguments.IsDrySwitch switch

/-- What keeps a run from telling whether there is anything to find. -/
inductive Fault (words : List Bytes) (schedule : List PoolThread) (session : Session) : Prop
  | options : CheckArguments.Unusable words → Fault words schedule session
  | configuration {arguments : CheckArguments} {failure : Failure} :
      CheckArguments.parse words = .ok arguments →
      surroundings.configuration.loadFailure = some failure → Fault words schedule session
  | jobs {arguments : CheckArguments} {failure : Failure} :
      CheckArguments.parse words = .ok arguments →
      surroundings.jobsFor arguments = .error failure → Fault words schedule session
  | refs : surroundings.Unresolved words session → Fault words schedule session
  /-- The lock, a feed, an object or the repair. -/
  | hindrance {plan : CheckPlan} {begun : Session} : surroundings.Begins words session plan begun →
      plan.store.Hindrance plan.options plan.source schedule begun → Fault words schedule session

/-- What the exit status of a run says. -/
structure Contract (words : List Bytes) (schedule : List PoolThread) (session : Session)
    (result : CommandResult × Session) : Prop where
  status : result.1.status = 0 ∨ result.1.status = 1 ∨ result.1.status = 2
  /-- The feeds that are wanted were drained, there was nothing to find and nothing is changed. -/
  clean : result.1.status = 0 → ∃ plan begun, surroundings.Begins words session plan begun ∧
    let start := plan.store.entered plan.options begun
    plan.store.Drains plan.options plan.source start ∧
      result.2.Alike (Store.exhausted plan.options plan.source start) ∧
      plan.store.dues plan.options plan.source start = [] ∧
      result.2.report.findings = [] ∧ result.2.files = session.files
  /-- The feeds that are wanted were drained, and what there was to find was found. -/
  corrupt : result.1.status = 1 → ∃ plan begun, surroundings.Begins words session plan begun ∧
    let start := plan.store.entered plan.options begun
    plan.store.Drains plan.options plan.source start ∧
      result.2.Alike (Store.exhausted plan.options plan.source start) ∧
      result.2.report.findings.Perm (plan.store.dues plan.options plan.source start) ∧
      result.2.report.findings ≠ []
  fault_iff : result.1.status = 2 ↔ surroundings.Fault words schedule session
  /-- Before the refs are known, no change is attempted and no pass begun. -/
  early : CheckArguments.Unusable words ∨ surroundings.Unresolved words session →
    result.1.status = 2 ∧ result.2.changes = session.changes ∧
      result.2.passes = session.passes ∧ result.2.files = session.files
  dryRun : AsksDry words → result.2.changes = session.changes ∧ result.2.files = session.files

variable {surroundings} {words : List Bytes} {schedule : List PoolThread}

/-- To begin a run leaves no more than a record. -/
theorem scans_called (session : Session) : session.Scans (called session) :=
  (heedless_trace _).within session

private theorem Begins.scans {plan : CheckPlan} {begun : Session}
    (untraced : surroundings.tracing = false)
    (begins : surroundings.Begins words session plan begun) : session.Scans begun := by
  obtain ⟨arguments, -, planned⟩ := begins
  have plans := surroundings.plans_plan untraced arguments (called session)
  rw [planned] at plans
  exact IsTrans.trans _ _ _ (scans_called session) plans.scans

private theorem Begins.dryRun {plan : CheckPlan} {begun : Session}
    (untraced : surroundings.tracing = false)
    (begins : surroundings.Begins words session plan begun) (dry : AsksDry words) :
    plan.options.dryRun = true := by
  obtain ⟨arguments, read, planned⟩ := begins
  have plans := surroundings.plans_plan untraced arguments (called session)
  rw [planned] at plans
  cases plans with
  | planned _ _ _ =>
      rcases dry with ⟨others, again, dry⟩ | ⟨before, switch, rest, rfl, options, switches⟩
      · cases read.symm.trans again
        exact dry
      · exact CheckArguments.dryRun_of_parse switches options read

/-- A run that comes to a plan has arguments that can be used, and nothing kept it from planning. -/
theorem Begins.plans {plan : CheckPlan} {begun : Session}
    (begins : surroundings.Begins words session plan begun) :
    ¬ CheckArguments.Unusable words ∧ ∀ arguments, CheckArguments.parse words = .ok arguments →
      ¬ ∃ failure, (surroundings.plan arguments (called session)).1 = .error failure := by
  obtain ⟨arguments, read, planned⟩ := begins
  rw [← CheckArguments.parse_error_iff]
  refine ⟨fun ⟨problem, refused⟩ => ?_, fun others again ⟨failure, failed⟩ => ?_⟩
  · cases read.symm.trans refused
  · cases read.symm.trans again
    rw [planned] at failed
    cases failed

private theorem Begins.unique {plan other : CheckPlan} {begun start : Session}
    (begins : surroundings.Begins words session plan begun)
    (again : surroundings.Begins words session other start) : other = plan ∧ start = begun := by
  obtain ⟨arguments, read, planned⟩ := begins
  obtain ⟨arguments', readAgain, plannedAgain⟩ := again
  cases read.symm.trans readAgain
  cases planned.symm.trans plannedAgain
  exact ⟨rfl, rfl⟩

private theorem Begins.not_early {plan : CheckPlan} {begun : Session}
    (untraced : surroundings.tracing = false)
    (begins : surroundings.Begins words session plan begun) :
    ¬ (CheckArguments.Unusable words ∨ surroundings.Unresolved words session) := by
  obtain ⟨usable, planned⟩ := begins.plans
  rintro (unusable | ⟨arguments, failure, read, failed⟩)
  · exact usable unusable
  · exact planned arguments read
      ((surroundings.plan_fails_iff untraced).mpr (.inr (.inr ⟨failure, failed⟩)))

/-- What keeps a run with a plan from telling is a hindrance of the check. -/
theorem Begins.fault_iff {plan : CheckPlan} {begun : Session}
    (untraced : surroundings.tracing = false)
    (begins : surroundings.Begins words session plan begun) :
    surroundings.Fault words schedule session ↔
      plan.store.Hindrance plan.options plan.source schedule begun := by
  refine ⟨fun fault => ?_, .hindrance begins⟩
  have early := begins.not_early untraced
  obtain ⟨-, fine⟩ := begins.plans
  cases fault with
  | options unusable => exact absurd (.inl unusable) early
  | configuration read loaded =>
      exact absurd ((surroundings.plan_fails_iff untraced).mpr (.inl ⟨_, loaded⟩)) (fine _ read)
  | jobs read told =>
      exact absurd ((surroundings.plan_fails_iff untraced).mpr (.inr (.inl ⟨_, told⟩)))
        (fine _ read)
  | refs unresolved => exact absurd (.inr unresolved) early
  | hindrance again hindrance =>
      obtain ⟨rfl, rfl⟩ := begins.unique again
      exact hindrance

/-- A run without a plan has a fault. -/
theorem fault_of_unplanned (untraced : surroundings.tracing = false) {arguments : CheckArguments}
    (read : CheckArguments.parse words = .ok arguments) {failure : Failure}
    (failed : (surroundings.plan arguments (called session)).1 = .error failure) :
    surroundings.Fault words schedule session := by
  rcases (surroundings.plan_fails_iff untraced).mp ⟨failure, failed⟩ with
    ⟨other, loaded⟩ | ⟨other, told⟩ | ⟨other, unresolved⟩
  · exact .configuration read loaded
  · exact .jobs read told
  · exact .refs ⟨arguments, other, read, unresolved⟩

/-- A run that ends while it only scanned has changed nothing. -/
theorem Tells.unchanged {after last : Session} (scans : session.Scans after)
    (tells : Tells after last) (noFile : ∀ place, session.journal.sink ≠ .file place) :
    last.changes = session.changes ∧ last.passes = session.passes ∧ last.files = session.files := by
  refine ⟨tells.changes.trans scans.changes, tells.passes.trans scans.passes, ?_⟩
  rw [tells.files (by rwa [scans.journal])]
  exact scans.files.eq_of_noFile noFile

private theorem contract_of_fault {result : CommandResult × Session} {after : Session}
    (scans : session.Scans after) (tells : Tells after result.2)
    (noFile : ∀ place, session.journal.sink ≠ .file place) (status : result.1.status = 2)
    (fault : surroundings.Fault words schedule session) :
    surroundings.Contract words schedule session result where
  status := .inr (.inr status)
  clean zero := nomatch zero.symm.trans status
  corrupt one := nomatch one.symm.trans status
  fault_iff := iff_of_true status fault
  early _ := ⟨status, tells.unchanged scans noFile⟩
  dryRun _ := ⟨(tells.unchanged scans noFile).1, (tells.unchanged scans noFile).2.2⟩

/-- Where no journal is kept, planning changes no files, and neither does telling how a plan that is
carried out has ended. -/
theorem Begins.files {plan : CheckPlan} {begun last : Session}
    (untraced : surroundings.tracing = false)
    (noFile : ∀ place, session.journal.sink ≠ .file place)
    (begins : surroundings.Begins words session plan begun)
    (tells : Tells (following schedule plan begun).2 last) :
    begun.files = session.files ∧ last.files = (following schedule plan begun).2.files := by
  have scans := begins.scans untraced
  have journal : (following schedule plan begun).2.journal = session.journal :=
    (plan.store.journal_checkFollowing plan.options plan.source schedule begun).trans scans.journal
  exact ⟨scans.files.eq_of_noFile noFile, tells.files (by rwa [journal])⟩

private theorem Begins.unchanged_of_dry {plan : CheckPlan} {begun last : Session}
    (untraced : surroundings.tracing = false)
    (noFile : ∀ place, session.journal.sink ≠ .file place)
    (begins : surroundings.Begins words session plan begun)
    (tells : Tells (following schedule plan begun).2 last) (asks : AsksDry words) :
    last.changes = session.changes ∧ last.files = session.files := by
  have scans := begins.scans untraced
  obtain ⟨before, after⟩ := begins.files untraced noFile tells
  have spares : begun.Spares (following schedule plan begun).2 :=
    Store.checkFollowing_spares (begins.dryRun untraced asks)
  refine ⟨tells.changes.trans (spares.changes.trans scans.changes), ?_⟩
  rw [after, spares.files.eq_of_noFile (by rwa [scans.journal]), before]

private theorem contract_of_begins {plan : CheckPlan} {begun last : Session}
    {result : CommandResult} (untraced : surroundings.tracing = false)
    (noFile : ∀ place, session.journal.sink ≠ .file place)
    (begins : surroundings.Begins words session plan begun)
    (completes : plan.store.Completes plan.options plan.source schedule begun)
    (status : result.status = match (following schedule plan begun).1 with
      | .ok verdict => verdict.status
      | .error _ => 2)
    (tells : Tells (following schedule plan begun).2 last) :
    surroundings.Contract words schedule session (result, last) := by
  have noFileBegun : ∀ place, begun.journal.sink ≠ .file place := by
    rwa [(begins.scans untraced).journal]
  have ends := Store.checkFollowing_ends noFileBegun completes
  have dry := begins.unchanged_of_dry untraced noFile tells
  have early := begins.not_early untraced
  rcases outcome : (following schedule plan begun).1 with failure | verdict <;>
    rw [outcome] at status
  · have fault := (begins.fault_iff untraced).mpr (ends.fails_iff.mp ⟨failure, outcome⟩)
    exact {
      status := .inr (.inr status)
      clean := fun zero => nomatch zero.symm.trans status
      corrupt := fun one => nomatch one.symm.trans status
      fault_iff := iff_of_true status fault
      early := fun impossible => absurd impossible early
      dryRun := dry }
  · obtain ⟨drains, alike⟩ := ends.drains verdict outcome
    obtain ⟨perm, clean_iff⟩ := ends.found verdict outcome
    have noFault : ¬ surroundings.Fault words schedule session := by
      rw [begins.fault_iff untraced, ← ends.fails_iff]
      rintro ⟨failure, failed⟩
      cases outcome.symm.trans failed
    have found : last.report.findings = (following schedule plan begun).2.report.findings := by
      rw [tells.report]
    have exhausted := tells.alike.trans alike
    cases verdict with
    | clean =>
        have zero : result.status = 0 := status
        have nothing := clean_iff.mp rfl
        have none := (nothing ▸ perm).eq_nil
        obtain ⟨before, after⟩ := begins.files untraced noFile tells
        have same := after.trans
          ((Store.files_checkFollowing_of_clean noFileBegun none).trans before)
        exact {
          status := .inl zero
          clean := fun _ =>
            ⟨plan, begun, begins, drains, exhausted, nothing, found.trans none, same⟩
          corrupt := fun one => nomatch one.symm.trans zero
          fault_iff := iff_of_false (fun two => nomatch two.symm.trans zero) noFault
          early := fun impossible => absurd impossible early
          dryRun := dry }
    | corrupt =>
        have one : result.status = 1 := status
        have some : last.report.findings ≠ [] := by
          intro empty
          have none := (found.symm.trans empty ▸ perm).symm.eq_nil
          cases clean_iff.mpr none
        exact {
          status := .inr (.inl one)
          clean := fun zero => nomatch zero.symm.trans one
          corrupt := fun _ => ⟨plan, begun, begins, drains, exhausted, found ▸ perm, some⟩
          fault_iff := iff_of_false (fun two => nomatch two.symm.trans one) noFault
          early := fun impossible => absurd impossible early
          dryRun := dry }

/-- Whatever turns the threads of a run have taken, they can come to their end. -/
theorem exists_completes_append (words : List Bytes) (schedule : List PoolThread)
    (session : Session) : ∃ rest, surroundings.Completes words (schedule ++ rest) session := by
  by_cases planned : ∃ plan begun, surroundings.Begins words session plan begun
  · obtain ⟨plan, begun, begins⟩ := planned
    obtain ⟨rest, completes⟩ :=
      plan.store.exists_completes_append plan.options plan.source schedule begun
    refine ⟨rest, fun other start again => ?_⟩
    obtain ⟨rfl, rfl⟩ := begins.unique again
    exact completes
  · exact ⟨[], fun plan begun begins => (planned ⟨plan, begun, begins⟩).elim⟩

/-- **The exit status of a check.** Where no journal is kept, a run with any words ends with status
0, 1 or 2, in whatever order its workers take their turns, as long as all come to their end. However
the turns begin, they can go on so that all do; and the order of the program itself is one of
these. -/
theorem runBy_exits (surroundings : Surroundings) (arguments : List Bytes) (session : Session)
    (untraced : surroundings.tracing = false)
    (noFile : ∀ place, session.journal.sink ≠ .file place) :
    let words := arguments.map Bytes.beforeNul
    (∀ schedule, surroundings.Completes words schedule session →
      surroundings.Contract words schedule session
        (surroundings.runBy (following schedule) (ascii "fsck" :: arguments) session)) ∧
    (∀ earlier, ∃ later, surroundings.Completes words (earlier ++ later) session) ∧
    ∃ schedule, surroundings.Completes words schedule session ∧
      surroundings.run (ascii "fsck" :: arguments) session =
        surroundings.runBy (following schedule) (ascii "fsck" :: arguments) session := by
  intro words
  refine ⟨fun schedule completes => ?_,
    fun earlier => surroundings.exists_completes_append words earlier session, ?_⟩
  · have exits := surroundings.exits_runBy untraced (following schedule) arguments session
    generalize surroundings.runBy (following schedule) (ascii "fsck" :: arguments) session = result
      at exits ⊢
    cases exits with
    | unusable read status tells =>
        exact contract_of_fault (scans_called session) tells noFile status
          (.options ((CheckArguments.parse_error_iff words).mp ⟨_, read⟩))
    | @unplanned arguments _ _ _ read planned status tells =>
        have plans := surroundings.plans_plan untraced arguments (called session)
        rw [planned] at plans
        exact contract_of_fault (IsTrans.trans _ _ _ (scans_called session) plans.scans) tells
          noFile status (fault_of_unplanned untraced read (by rw [planned]))
    | failed begins ended status tells =>
        exact contract_of_begins untraced noFile begins (completes _ _ begins)
          (by rw [ended]; exact status) (by rw [ended]; exact tells)
    | concluded begins ended status tells =>
        exact contract_of_begins untraced noFile begins (completes _ _ begins)
          (by rw [ended]; exact status) (by rw [ended]; exact tells)
  · by_cases planned : ∃ plan begun, surroundings.Begins words session plan begun
    · obtain ⟨plan, begun, begins⟩ := planned
      obtain ⟨schedule, completes, same⟩ :=
        plan.store.exists_completes plan.options plan.source begun
      refine ⟨schedule, fun other start again => ?_,
        surroundings.runBy_congr untraced fun other start again => ?_⟩
      · obtain ⟨rfl, rfl⟩ := begins.unique again
        exact completes
      · obtain ⟨rfl, rfl⟩ := begins.unique again
        exact same
    · have never (plan : CheckPlan) (begun : Session)
          (begins : surroundings.Begins words session plan begun) : False :=
        planned ⟨plan, begun, begins⟩
      exact ⟨[], fun plan begun begins => (never plan begun begins).elim,
        surroundings.runBy_congr untraced fun plan begun begins => (never plan begun begins).elim⟩

/-- A repository with a branch, in whose trees a file should have been a pointer. -/
def branched : Repository :=
  let commit : GitCall :=
    { arguments :=
        [ascii "rev-parse", ascii "--verify", ascii "-q", ascii "main^\x7bcommit\x7d"]
      output := ascii "tip\n" }
  let known := TreeScan.trackedFirst.transcript
  { TreeScan.trackedFirst with transcript := { known with calls := commit :: known.calls } }

/-- A dry run that finds something. -/
theorem runBy_exits_of_branch :
    let surroundings : Surroundings := { repository := branched }
    let words := [ascii "-d", ascii "-j2", ascii "--po", ascii "main"]
    let result := surroundings.run (ascii "fsck" :: words) {}
    result.1.status = 1 ∧ result.2.changes = [] ∧
      ∃ schedule, surroundings.Completes words schedule {} ∧
        ¬ surroundings.Fault words schedule {} := by
  intro surroundings words result
  have status : result.1.status = 1 := by decide +kernel
  obtain ⟨follows, -, schedule, completes, same⟩ :=
    runBy_exits surroundings words {} rfl (fun _ => nofun)
  have plain : words.map Bytes.beforeNul = words := by decide
  rw [plain] at follows completes
  have contract := follows schedule completes
  rw [← same] at contract
  change surroundings.Contract words schedule {} result at contract
  clear_value result
  have dry : AsksDry words := .inr ⟨[], _, _, rfl, List.not_mem_nil, .inr rfl⟩
  refine ⟨status, (contract.dryRun dry).1, schedule, completes, fun fault => ?_⟩
  cases status.symm.trans (contract.fault_iff.mpr fault)

end Surroundings

end StoreAudit
