import StoreAudit.Proofs.Check.Schedule

/-!
# What a check leaves as it was

A check that does not come to a repair takes at most the lock, and gives it back. Besides the
records of an open journal, the files it leaves are the files it found (`Store.check_leaves_files`).
-/

namespace StoreAudit.Store

open Audit

variable (store : Store) {options : CheckOptions} {passes : Audit Unit}

/-- Whether the passes, begun in a session, come to their end with something to be moved. -/
def ReachesRepair (options : CheckOptions) (passes : Audit Unit) (session reached : Session) :
    Prop :=
  options.dryRun = false ∧ passes (renewed options session) = (.ok (), reached) ∧
    ∃ finding ∈ reached.report.findings, finding.isObjectFinding = true

/-- A new report changes no files. -/
theorem spares_renewed (options : CheckOptions) (session : Session) :
    session.Spares (renewed options session) :=
  ⟨rfl, rfl, rfl, session.sees_self⟩

/-- There is nothing to repair exactly if no finding is about an object. -/
theorem corrupt_eq_nil_iff {session reached : Session}
    (observes : (renewed options session).Observes reached) :
    reached.report.corrupt = [] ↔
      ∀ finding ∈ reached.report.findings, finding.isObjectFinding = false := by
  obtain ⟨findings, reported⟩ := observes.report
  have consistent : (renewed options session).report.Consistent := Report.consistent_fresh _
  rw [reported, Report.corrupt_foldl_add_eq_nil consistent, Report.findings_foldl_add]
  simp [renewed]

/-- A check that comes to no repair spares the files. -/
theorem concludeAfter_spares (within : Within Session.Observes passes) {session : Session}
    (idle : ∀ reached, ¬ ReachesRepair options passes session reached) :
    session.Spares (store.concludeAfter options passes session).2 := by
  have observes := within (renewed options session)
  have start := spares_renewed options session
  rw [concludeAfter_apply]
  rcases shape : passes (renewed options session) with ⟨failure | _, reached⟩ <;>
    rw [shape] at observes
  · exact IsTrans.trans _ _ _ start observes.spares
  have spares : session.Spares reached := IsTrans.trans _ _ _ start observes.spares
  dsimp only
  cases fine : reached.report.isOk with
  | true =>
      rw [store.conclude_of_isOk options fine]
      exact ⟨spares.journal, spares.pid, spares.changes, spares.files⟩
  | false =>
      have nothing : (options.dryRun || reached.report.corrupt.isEmpty) = true := by
        cases dry : options.dryRun with
        | true => rfl
        | false =>
            rw [Bool.false_or, List.isEmpty_iff, corrupt_eq_nil_iff observes]
            intro finding member
            cases isObject : finding.isObjectFinding with
            | false => rfl
            | true => exact absurd ⟨dry, shape, finding, member, isObject⟩ (idle reached)
      rw [store.conclude_of_idle options fine nothing]
      exact spares

/-- Where the passes of a check lead to a repair, the check is that repair. -/
theorem concludeAfter_of_repair (within : Within Session.Observes passes)
    {session reached : Session} (repairs : ReachesRepair options passes session reached) :
    session.Spares reached ∧
      store.concludeAfter options passes session = store.repairAndNote reached := by
  obtain ⟨wanted, shape, finding, member, isObject⟩ := repairs
  have observes := within (renewed options session)
  rw [shape] at observes
  refine ⟨IsTrans.trans _ _ _ (spares_renewed options session) observes.spares, ?_⟩
  have found : reached.report.isOk = false := by
    rw [Report.isOk]
    simpa using List.ne_nil_of_mem member
  have some : (options.dryRun || reached.report.corrupt.isEmpty) = false := by
    rw [wanted, Bool.false_or]
    cases empty : reached.report.corrupt.isEmpty with
    | false => rfl
    | true =>
        have none := (corrupt_eq_nil_iff observes).mp (List.isEmpty_iff.mp empty) finding member
        rw [isObject] at none
        cases none
  rw [concludeAfter_apply, shape]
  exact store.conclude_of_repair options found some

/-- The later session has attempted some more changes. -/
def Attempts (before after : Session) : Prop :=
  ∃ more, after.changes = before.changes ++ more

instance : IsPreorder Session Attempts where
  refl session := ⟨[], (List.append_nil _).symm⟩
  trans _ _ _ first second := by
    obtain ⟨more, made⟩ := first
    obtain ⟨last, madeLater⟩ := second
    exact ⟨more ++ last, by rw [madeLater, made, List.append_assoc]⟩

private theorem kept_attempts : Kept Attempts fun _ => True :=
  ⟨fun _ _ _ => ⟨[], (List.append_nil _).symm⟩, fun change _ _ => ⟨[change], rfl⟩⟩

/-- A repair first attempts to make its directory. -/
theorem changes_repair (session : Session) :
    ∃ rest, (store.repair session).2.changes =
      session.changes ++ .makeDirectories store.quarantine :: rest := by
  rw [repair_apply, moveAll, bind_apply, change_apply]
  have within : Within Attempts (store.moveEach session.report.corrupt) :=
    kept_attempts.moveEach (fun _ _ _ => trivial) _
  rcases ((store.announced session).files.perform (.makeDirectories store.quarantine)).2 with
    errno | _
  · exact ⟨[], rfl⟩
  · obtain ⟨more, made⟩ :=
      within (attempted (store.announced session) (.makeDirectories store.quarantine))
    exact ⟨more, made.trans (List.append_assoc _ _ _)⟩

/-- What is noted after a repair adds neither findings nor changes. -/
theorem repairAndNote_keeps (session : Session) :
    (store.repairAndNote session).2.report = (store.repair session).2.report ∧
      (store.repairAndNote session).2.changes = (store.repair session).2.changes := by
  rw [repairAndNote, bind_apply]
  rcases store.repair session with ⟨_ | _, _⟩ <;> exact ⟨rfl, rfl⟩

/-- Without its lock, a check spares the files or starts a repair, which can be told from what it
leaves. -/
theorem concludeAfter_cases (within : Within Session.Observes passes) (session : Session) :
    session.Spares (store.concludeAfter options passes session).2 ∨
      options.dryRun = false ∧
      (∃ finding ∈ (store.concludeAfter options passes session).2.report.findings,
        finding.isObjectFinding = true) ∧
      ∃ rest, (store.concludeAfter options passes session).2.changes =
        session.changes ++ .makeDirectories store.quarantine :: rest := by
  by_cases idle : ∀ reached, ¬ ReachesRepair options passes session reached
  · exact .inl (store.concludeAfter_spares within idle)
  · obtain ⟨reached, repairs⟩ := not_forall_not.mp idle
    obtain ⟨spares, same⟩ := store.concludeAfter_of_repair within repairs
    obtain ⟨report, changes⟩ := store.repairAndNote_keeps reached
    obtain ⟨dry, -, finding, member, isObject⟩ := repairs
    obtain ⟨rest, made⟩ := store.changes_repair reached
    refine .inr ⟨dry, ⟨finding, ?_, isObject⟩, rest, ?_⟩
    · rw [same, report, report_repair, Report.findings_print]
      exact member
    · rw [same, changes, made, spares.changes]

/-- The lock that was taken before files were only written to by records is gone when it is given
back, and there is no other trace of it. -/
theorem release_of_sees {session after : Session}
    (made : (session.files.perform (store.taking session)).2 = .ok ())
    (sees : (store.locked session).Sees after.files) :
    (release store.lockPath after).2 = attempted after (.remove store.lockPath) ∧
      session.Sees (release store.lockPath after).2.files ∧
      (release store.lockPath after).2.files.readLink? store.lockPath = none := by
  obtain ⟨more, written⟩ := sees
  obtain ⟨events, whole⟩ : ∃ events, after.files = session.journal.writeAll
      (session.files.perform (store.taking session)).1 events := ⟨(_, _) :: more, written⟩
  obtain ⟨removed, gone⟩ :=
    session.journal.remove_writeAll_of_makeLink (settle_eq_ok made) events
  have removed : after.files.remove store.lockPath =
      .ok (session.journal.writeAll session.files events) := whole ▸ removed
  have performed : after.files.perform (.remove store.lockPath) =
      (session.journal.writeAll session.files events, .ok ()) := by
    rw [FileTree.perform, removed]
    rfl
  have released : (release store.lockPath after).2 =
      attempted after (.remove store.lockPath) :=
    release_of_removed (congrArg Prod.snd performed)
  have files := congrArg Prod.fst performed
  rw [released]
  refine ⟨rfl, ⟨_, files⟩, ?_⟩
  change FileTree.readLink? (after.files.perform (.remove store.lockPath)).1 _ = none
  rw [files]
  exact gone

/-- A lock that is taken and given back with nothing changed in between leaves no trace. -/
theorem release_restores {session after : Session}
    (made : (session.files.perform (store.taking session)).2 = .ok ())
    (spares : (store.locked session).Spares after) :
    let released := (release store.lockPath after).2
    released.changes = session.changes ++ [store.taking session, .remove store.lockPath] ∧
      released.report = after.report ∧ session.Sees released.files ∧
      released.files.readLink? store.lockPath = none := by
  obtain ⟨released, sees, gone⟩ := store.release_of_sees made spares.files
  refine ⟨?_, by rw [released, attempted], sees, gone⟩
  rw [released]
  change after.changes ++ [_] = _
  rw [spares.changes]
  exact List.append_assoc _ _ _

/-- A check that is dry, or reports nothing to be moved, or does not get as far as making the
directory for what is moved, leaves the files it found but for records of events, and no lock. If
somebody else holds the lock, nothing has happened but the attempt to take it. -/
def LeavesFiles (options : CheckOptions) (session : Session)
    (result : Except Failure Verdict × Session) : Prop :=
  (∃ made, result.2.changes = session.changes ++ made ∧
    (options.dryRun = true ∨
        (∀ finding ∈ result.2.report.findings, finding.isObjectFinding = false) ∨
        .makeDirectories store.quarantine ∉ made →
      session.Sees result.2.files ∧
        ((∀ place, session.journal.sink ≠ .file place) → result.2.files = session.files) ∧
        (options.dryRun = false → (store.lock session).1 = .ok (some store.lockPath) →
          result.2.files.readLink? store.lockPath = none))) ∧
  (options.dryRun = false → session.files.isDirectory store.root = true →
    session.files.makeLink (Decimal.ofNat session.pid) store.lockPath = .error .alreadyExists →
    result =
      (.error (.locked store.root (ownerOf session.files store.lockPath) store.lockPath),
        { session with changes := session.changes ++ [store.taking session] }))

private theorem leavesFiles_of_sees {session : Session} {result : Except Failure Verdict × Session}
    {made : List Change} (changes : result.2.changes = session.changes ++ made)
    (sees : session.Sees result.2.files)
    (unlocked : options.dryRun = false → (store.lock session).1 = .ok (some store.lockPath) →
      result.2.files.readLink? store.lockPath = none)
    (refused : options.dryRun = false → session.files.isDirectory store.root = true →
      session.files.makeLink (Decimal.ofNat session.pid) store.lockPath ≠ .error .alreadyExists) :
    store.LeavesFiles options session result := by
  refine ⟨⟨made, changes, fun _ => ⟨sees, sees.eq_of_noFile, unlocked⟩⟩, ?_⟩
  intro wanted there taken
  exact absurd taken (refused wanted there)

private theorem leavesFiles_of_repair {session : Session}
    {result : Except Failure Verdict × Session}
    {made : List Change} (changes : result.2.changes = session.changes ++ made)
    (wanted : options.dryRun = false)
    (found : ∃ finding ∈ result.2.report.findings, finding.isObjectFinding = true)
    (repairs : .makeDirectories store.quarantine ∈ made)
    (refused : options.dryRun = false → session.files.isDirectory store.root = true →
      session.files.makeLink (Decimal.ofNat session.pid) store.lockPath ≠ .error .alreadyExists) :
    store.LeavesFiles options session result := by
  obtain ⟨finding, member, isObject⟩ := found
  refine ⟨⟨made, changes, ?_⟩, ?_⟩
  · rintro (dry | none | not)
    · rw [wanted] at dry
      cases dry
    · rw [none finding member] at isObject
      cases isObject
    · exact absurd repairs not
  · intro wanted there taken
    exact absurd taken (refused wanted there)

private theorem leavesFiles_of_refused {session : Session} {errno : Errno}
    (there : session.files.isDirectory store.root = true)
    (alone : session.files.perform (store.taking session) = (session.files, .error errno)) :
    store.LeavesFiles options session
      (.error (if errno = .alreadyExists then
          .locked store.root (ownerOf session.files store.lockPath) store.lockPath
        else .inCall (ascii "symlink(" ++ store.lockPath ++ ascii ")") errno),
        attempted session (store.taking session)) := by
  have refused := congrArg Prod.snd alone
  have files : (attempted session (store.taking session)).files = session.files :=
    congrArg Prod.fst alone
  refine ⟨⟨[store.taking session], rfl, fun _ => ⟨⟨[], files⟩, fun _ => files, ?_⟩⟩, ?_⟩
  · intro _ held
    rw [store.lock_of_refused there refused] at held
    cases held
  · intro _ _ taken
    rw [(settle_eq_error refused).1] at taken
    cases taken
    exact Prod.ext rfl (congrArg (fun files => { session with
      files := files
      changes := session.changes ++ [store.taking session] }) files)

private theorem leavesFiles_of_locked {session : Session}
    (taken : (session.files.perform (store.taking session)).2 = .ok ())
    {result : Except Failure Verdict × Session}
    (ends : (store.locked session).Spares result.2 ∨ options.dryRun = false ∧
      (∃ finding ∈ result.2.report.findings, finding.isObjectFinding = true) ∧
      ∃ rest, result.2.changes =
        (store.locked session).changes ++ .makeDirectories store.quarantine :: rest) :
    store.LeavesFiles options session (result.1, (release store.lockPath result.2).2) := by
  have free (_ : options.dryRun = false) (_ : session.files.isDirectory store.root = true) :
      session.files.makeLink (Decimal.ofNat session.pid) store.lockPath ≠
        .error .alreadyExists := by
    rw [settle_eq_ok taken]
    intro impossible
    cases impossible
  rcases ends with spares | ⟨wanted, found, rest, made⟩
  · obtain ⟨changes, -, sees, gone⟩ := store.release_restores taken spares
    exact store.leavesFiles_of_sees changes sees (fun _ _ => gone) free
  · obtain ⟨more, released⟩ := kept_attempts.release trivial result.2
    have report := within_sameReport_release store.lockPath result.2
    have changes : (release store.lockPath result.2).2.changes =
        session.changes ++ (store.taking session ::
          .makeDirectories store.quarantine :: (rest ++ more)) := by
      rw [released, made]
      change session.changes ++ [_] ++ _ ++ _ = _
      simp
    exact store.leavesFiles_of_repair changes wanted (report ▸ found) (by simp) free

/-- A check whose passes only look leaves the files as said, however it enters. -/
theorem checkBy_leavesFiles (source : ScanSource) {objects : Audit Unit}
    (within : Within Session.Observes (Store.passes options source objects)) (session : Session) :
    store.LeavesFiles options session (store.checkBy options source objects session) := by
  have enters := store.checkBy_enters options source objects session
  generalize store.checkBy options source objects session = result at enters ⊢
  cases enters with
  | dryRun dry =>
      rcases store.concludeAfter_cases within session with spares | ⟨wanted, -⟩
      · exact store.leavesFiles_of_sees (spares.changes.trans (List.append_nil _).symm) spares.files
          (by simp [dry]) (by simp [dry])
      · rw [dry] at wanted
        cases wanted
  | noStore dry absent =>
      rcases store.concludeAfter_cases within session with spares | ⟨wanted, found, rest, made⟩
      · refine store.leavesFiles_of_sees (spares.changes.trans (List.append_nil _).symm)
          spares.files (fun _ held => ?_) (by simp [absent])
        rw [store.lock_of_noDirectory absent] at held
        cases held
      · exact store.leavesFiles_of_repair made wanted found (by simp) (by simp [absent])
  | refused dry there alone => exact store.leavesFiles_of_refused there alone
  | locked dry there taken =>
      exact store.leavesFiles_of_locked taken (store.concludeAfter_cases within _)

/-- **A check that repairs nothing leaves the files alone**, in whatever order its workers take
their turns: but for records of events in an open journal file, they are those it found. -/
theorem check_leaves_files (options : CheckOptions) (source : ScanSource) (session : Session) :
    (∀ schedule, store.LeavesFiles options session
      (store.checkFollowing options source schedule session)) ∧
    store.LeavesFiles options session (store.check options source session) := by
  have always (schedule : List PoolThread) : store.LeavesFiles options session
      (store.checkFollowing options source schedule session) :=
    store.checkBy_leavesFiles source (store.within_passesFollowing options source schedule) session
  refine ⟨always, ?_⟩
  obtain ⟨schedule, same⟩ := store.check_eq_checkFollowing options source session
  rw [same]
  exact always schedule

/-- A check that must leave the store as it is still writes to an open journal file. -/
theorem check_writes_open_journal :
    let store : Store := ⟨ascii "s"⟩
    let missing : FoundPointer := { oid := List.replicate 64 Ascii.zero, size := 5 }
    let source : ScanSource := ⟨[.listed [.pointer missing] none], []⟩
    let session : Session :=
      { files := { entries := [([ascii "log"], .file [])] }
        journal := { level := Journal.traceLevel, sink := .file [ascii "log"] } }
    let result := store.check { dryRun := true } source session
    result.2.changes = [] ∧ result.2.files ≠ session.files := by
  decide +kernel

end StoreAudit.Store
