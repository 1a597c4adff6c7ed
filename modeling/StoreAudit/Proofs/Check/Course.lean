import StoreAudit.Check.Run
import StoreAudit.Proofs.Session.Records

/-!
# The course of a check

A check takes the lock, makes its passes, concludes and gives the lock back. The equations here say
what each of these leaves behind; how the objects are checked is a parameter, since workers can take
their turns in many orders.
-/

namespace StoreAudit.Store

open Audit

variable (store : Store) (options : CheckOptions) (source : ScanSource)

/-- The passes of a check, of which that over the objects is given. -/
def passes (objects : Audit Unit) : Audit Unit := do
  if options.wantsObjects then objects
  if options.wantsPointers then pointersPass source

/-- A session in which a check begins, once it has the lock if it needs it. -/
def renewed (session : Session) : Session :=
  { session with report := { dryRun := options.dryRun } }

/-- The passes and what follows them. -/
def concludeAfter (passes : Audit Unit) : Audit Verdict := do
  modify (renewed options)
  passes
  store.conclude options

/-- The whole check, of which the pass over the objects is given. -/
def checkBy (objects : Audit Unit) : Audit Verdict :=
  let body := store.concludeAfter options (passes options source objects)
  if options.dryRun then body else store.holdingLock body

/-- A check runs the pass over the objects that the number of jobs asks for. -/
theorem check_eq_checkBy :
    store.check options source =
      store.checkBy options source (store.objectsPass source options.jobs) := by
  have same : store.checkUnlocked options source = store.concludeAfter options
      (passes options source (store.objectsPass source options.jobs)) := by
    unfold checkUnlocked concludeAfter passes
    cases options.wantsObjects <;> cases options.wantsPointers <;> simp <;> rfl
  rw [check, checkBy, same]

/-- A conclusion is drawn if the passes did not fail. -/
theorem concludeAfter_apply (passes : Audit Unit) (session : Session) :
    store.concludeAfter options passes session =
      match passes (renewed options session) with
      | (.ok _, reached) => store.conclude options reached
      | (.error failure, after) => (.error failure, after) := by
  have begun : store.concludeAfter options passes session =
      (passes >>= fun _ => store.conclude options : Audit Verdict) (renewed options session) := rfl
  rw [begun, bind_apply]
  rcases passes (renewed options session) with ⟨_ | _, _⟩ <;> rfl

/-- Whatever becomes of the body, a lock that was taken is released after it. -/
theorem holdingLock_apply {α : Type} (body : Audit α) (session : Session) :
    store.holdingLock body session =
      match store.lock session with
      | (.ok none, after) => body after
      | (.ok (some lockPath), after) =>
        ((body after).1, (release lockPath (body after).2).2)
      | (.error failure, after) => (.error failure, after) := by
  rw [holdingLock, bind_apply]
  rcases store.lock session with ⟨_ | _ | _, _⟩ <;> rfl

/-- The session after a change was attempted. -/
def attempted (session : Session) (change : Change) : Session :=
  { session with
    files := (session.files.perform change).1
    changes := session.changes ++ [change] }

private theorem attempt_apply (change : Change) (session : Session) :
    attempt change session = ((session.files.perform change).2, attempted session change) := rfl

/-- A change that happened is what the files have become. -/
theorem settle_eq_ok {files : FileTree} {outcome : Except Errno FileTree}
    (done : (FileTree.perform.settle files outcome).2 = .ok ()) :
    outcome = .ok (FileTree.perform.settle files outcome).1 := by
  cases outcome with
  | error errno => cases done
  | ok changed => rfl

/-- A change that was refused leaves the files alone. -/
theorem settle_eq_error {files : FileTree} {outcome : Except Errno FileTree} {errno : Errno}
    (refused : (FileTree.perform.settle files outcome).2 = .error errno) :
    outcome = .error errno ∧ (FileTree.perform.settle files outcome).1 = files := by
  cases outcome with
  | error other =>
      cases refused
      exact ⟨rfl, rfl⟩
  | ok changed => cases refused

/-- What a run does to take the lock. -/
def taking (session : Session) : Change := .makeLink (Decimal.ofNat session.pid) store.lockPath

/-- The session once the lock is taken. -/
def locked (session : Session) : Session :=
  (trace (ascii "locked " ++ store.lockPath.beforeNul)
    (attempted session (store.taking session))).2

/-- A store without a directory is not locked. -/
theorem lock_of_noDirectory {session : Session}
    (absent : session.files.isDirectory store.root = false) :
    store.lock session = (.ok none, session) := by
  unfold lock
  change (if session.files.isDirectory store.root = true then _ else _ : Audit _) session = _
  rw [if_neg (by simp [absent])]
  rfl

/-- The lock is held once its link is made. -/
theorem lock_of_made {session : Session} (there : session.files.isDirectory store.root = true)
    (made : (session.files.perform (store.taking session)).2 = .ok ()) :
    store.lock session = (.ok (some store.lockPath), store.locked session) := by
  have result : (attempt (.makeLink (Decimal.ofNat session.pid) store.lockPath) session).1 =
      .ok () := made
  unfold lock
  change (if session.files.isDirectory store.root = true then _ else _ : Audit _) session = _
  rw [if_pos there, bind_lift_apply, result]
  rfl

/-- Where the link cannot be made there is no lock, and the link that is there already says whose it
is. -/
theorem lock_of_refused {session : Session} {errno : Errno}
    (there : session.files.isDirectory store.root = true)
    (refused : (session.files.perform (store.taking session)).2 = .error errno) :
    store.lock session =
      (.error (if errno = .alreadyExists then
          .locked store.root (ownerOf session.files store.lockPath) store.lockPath
        else .inCall (ascii "symlink(" ++ store.lockPath ++ ascii ")") errno),
        attempted session (store.taking session)) := by
  have result : (attempt (.makeLink (Decimal.ofNat session.pid) store.lockPath) session).1 =
      .error errno := refused
  unfold lock
  change (if session.files.isDirectory store.root = true then _ else _ : Audit _) session = _
  rw [if_pos there, bind_lift_apply, result]
  by_cases taken : errno = .alreadyExists
  · simp only [taken, if_true]
    rfl
  · simp only [taken, if_false]
    rfl

/-- A lock that cannot be removed is left with a warning. -/
theorem release_apply (lockPath : Bytes) (session : Session) :
    (release lockPath session).2 =
      match (session.files.perform (.remove lockPath)).2 with
      | .ok () => attempted session (.remove lockPath)
      | .error errno =>
        (warn (ascii "Cannot remove lock " ++ lockPath.beforeNul ++ ascii ": " ++ errno.text)
          (attempted session (.remove lockPath))).2 := by
  rw [release, bind_state_apply, attempt_apply]
  rcases (session.files.perform (.remove lockPath)).2 with errno | _ <;> rfl

/-- Releasing attempts to remove the link, and nothing else. -/
theorem changes_release (lockPath : Bytes) (session : Session) :
    (release lockPath session).2.changes = session.changes ++ [.remove lockPath] := by
  rw [release_apply]
  split <;> rfl

/-- Releasing takes no look at the stop signal. -/
theorem signal_release (lockPath : Bytes) (session : Session) :
    (release lockPath session).2.signal = session.signal := by
  rw [release_apply]
  split <;> rfl

/-- Where the link can be removed, releasing does no more than that. -/
theorem release_of_removed {lockPath : Bytes} {session : Session}
    (removed : (session.files.perform (.remove lockPath)).2 = .ok ()) :
    (release lockPath session).2 = attempted session (.remove lockPath) := by
  rw [release_apply, removed]

/-- Where the link cannot be removed, releasing warns of it. -/
theorem release_of_refused {lockPath : Bytes} {session : Session} {errno : Errno}
    (refused : (session.files.perform (.remove lockPath)).2 = .error errno) :
    (release lockPath session).2 =
      (warn (ascii "Cannot remove lock " ++ lockPath.beforeNul ++ ascii ": " ++ errno.text)
        (attempted session (.remove lockPath))).2 := by
  rw [release_apply, refused]

/-- What a check comes to that does its body under the lock if it needs it, by what becomes of
the lock. -/
inductive Enters (session : Session) (body : Audit Verdict) :
    Except Failure Verdict × Session → Prop
  | dryRun : options.dryRun = true → Enters session body (body session)
  | noStore : options.dryRun = false → session.files.isDirectory store.root = false →
      Enters session body (body session)
  | refused {errno : Errno} : options.dryRun = false →
      session.files.isDirectory store.root = true →
      session.files.perform (store.taking session) = (session.files, .error errno) →
      Enters session body
        (.error (if errno = .alreadyExists then
            .locked store.root (ownerOf session.files store.lockPath) store.lockPath
          else .inCall (ascii "symlink(" ++ store.lockPath ++ ascii ")") errno),
          attempted session (store.taking session))
  | locked : options.dryRun = false → session.files.isDirectory store.root = true →
      (session.files.perform (store.taking session)).2 = .ok () →
      Enters session body
        ((body (store.locked session)).1,
          (release store.lockPath (body (store.locked session)).2).2)

/-- A check enters in one of the ways there are. -/
theorem checkBy_enters (objects : Audit Unit) (session : Session) :
    store.Enters options session (store.concludeAfter options (passes options source objects))
      (store.checkBy options source objects session) := by
  unfold checkBy
  cases dry : options.dryRun with
  | true => exact .dryRun dry
  | false =>
      simp only [Bool.false_eq_true, if_false]
      rw [holdingLock_apply]
      by_cases there : session.files.isDirectory store.root = true
      · rcases attempt : (session.files.perform (store.taking session)).2 with errno | _
        · rw [store.lock_of_refused there attempt]
          exact .refused dry there (Prod.ext (settle_eq_error attempt).2 attempt)
        · rw [store.lock_of_made there attempt]
          exact .locked dry there attempt
      · have absent : session.files.isDirectory store.root = false := by simpa using there
        rw [store.lock_of_noDirectory absent]
        exact .noStore dry absent

/-- A change that must succeed is attempted, and fails as the system says. -/
theorem change_apply (context : Bytes) (change : Change) (session : Session) :
    Audit.change context change session =
      (match (session.files.perform change).2 with
        | .ok () => .ok ()
        | .error errno => .error (.inCall context errno),
      attempted session change) := by
  rw [Audit.change, bind_lift_apply, attempt_apply]
  rcases (session.files.perform change).2 with errno | _ <;> rfl

/-- The line that announces a repair. -/
def repairLine : Bytes := ascii "objects: repair: moving corrupt objects to " ++ store.quarantine

/-- The session once a repair is announced. -/
def announced (session : Session) : Session :=
  { session with report := session.report.print store.repairLine }

/-- The moves of a repair. -/
def moveEach (oids : List Bytes) : Audit Nat := do
  oids.forM store.setAside
  pure oids.length

/-- What a repair does with the objects to be moved. -/
def moveAll (oids : List Bytes) : Audit Nat := do
  Audit.change (ascii "mkdir(" ++ store.quarantine ++ ascii ")") (.makeDirectories store.quarantine)
  store.moveEach oids

/-- A repair announces itself and then moves all corrupt objects. -/
theorem repair_apply (session : Session) :
    store.repair session = store.moveAll session.report.corrupt (store.announced session) := rfl

/-- Without a finding a check ends well, and says so. -/
theorem conclude_of_isOk {session : Session} (fine : session.report.isOk = true) :
    store.conclude options session =
      (.ok .clean, { session with report := session.report.print okLine }) := by
  unfold conclude
  change (if session.report.isOk = true then _ else _ : Audit _) session = _
  rw [if_pos fine]
  rfl

/-- With findings of which none is to be repaired, the verdict is all. -/
theorem conclude_of_idle {session : Session} (found : session.report.isOk = false)
    (idle : (options.dryRun || session.report.corrupt.isEmpty) = true) :
    store.conclude options session = (.ok .corrupt, session) := by
  unfold conclude
  change (if session.report.isOk = true then _ else
    if (options.dryRun || session.report.corrupt.isEmpty) = true then _ else _ : Audit _) session =
      _
  rw [if_neg (by simp [found]), if_pos idle]
  rfl

/-- What a check does once something is to be moved. -/
def repairAndNote : Audit Verdict := do
  let moved ← store.repair
  note (ascii "fsck: moved " ++ Decimal.ofNat moved ++ ascii " objects to " ++
    store.quarantine.beforeNul)
  pure .corrupt

/-- With findings to be repaired, a check repairs. -/
theorem conclude_of_repair {session : Session} (found : session.report.isOk = false)
    (repairs : (options.dryRun || session.report.corrupt.isEmpty) = false) :
    store.conclude options session = store.repairAndNote session := by
  unfold conclude
  change (if session.report.isOk = true then _ else
    if (options.dryRun || session.report.corrupt.isEmpty) = true then _ else _ : Audit _) session =
      _
  rw [if_neg (by simp [found]), if_neg (by simp [repairs])]
  rfl

/-- Events and attempts of some changes lead to related sessions. -/
structure Kept (relation : Session → Session → Prop) (allowed : Change → Prop) : Prop where
  record : ∀ level line, Within relation (log level line)
  attempt : ∀ change session, allowed change → relation session (attempted session change)

namespace Kept

variable {store} {relation : Session → Session → Prop} {allowed : Change → Prop}
  [IsPreorder Session relation]

private theorem change (kept : Kept relation allowed) (context : Bytes) {change : Change}
    (may : allowed change) : Within relation (Audit.change context change) := by
  refine .bind (Within.lift fun session => kept.attempt change session may) fun result => ?_
  cases result with
  | error errno => exact within_throw _
  | ok value => exact within_pure _

private theorem setAside (kept : Kept relation allowed) {oid : Bytes}
    (moves : ∀ source, store.objectPath oid = .ok source →
      allowed (.rename source (store.quarantinePath oid))) :
    Within relation (store.setAside oid) := by
  refine .bind_liftExcept fun source named => ?_
  exact .bind (kept.change _ (moves source named)) fun _ => (kept.record _ _).lift

/-- What renamings into the quarantine keep, moving objects keeps. -/
theorem moveEach (kept : Kept relation allowed)
    (moves : ∀ oid source, store.objectPath oid = .ok source →
      allowed (.rename source (store.quarantinePath oid))) (oids : List Bytes) :
    Within relation (store.moveEach oids) :=
  .bind (.forM (fun oid => kept.setAside (moves oid)) oids) fun _ => within_pure _

/-- What making the quarantine and renamings into it keep, a repair keeps. -/
theorem moveAll (kept : Kept relation allowed)
    (makes : allowed (.makeDirectories store.quarantine))
    (moves : ∀ oid source, store.objectPath oid = .ok source →
      allowed (.rename source (store.quarantinePath oid))) (oids : List Bytes) :
    Within relation (store.moveAll oids) :=
  .bind (kept.change _ makes) fun _ => kept.moveEach moves oids

/-- What removing the lock keeps, a release keeps. -/
theorem release (kept : Kept relation allowed) {lockPath : Bytes}
    (removes : allowed (.remove lockPath)) : Within relation (release lockPath) := by
  refine .bind' (fun session => kept.attempt _ session removes) fun result => ?_
  cases result with
  | error errno => exact kept.record _ _
  | ok value => exact within_pure' _

end Kept

/-- All changes that a check can attempt are among the allowed ones. -/
structure AllowedFor (store : Store) (allowed : Change → Prop) : Prop where
  takes : ∀ target, allowed (.makeLink target store.lockPath)
  returns : allowed (.remove store.lockPath)
  makes : allowed (.makeDirectories store.quarantine)
  moves : ∀ oid source, store.objectPath oid = .ok source →
    allowed (.rename source (store.quarantinePath oid))

/-- If every change is allowed, those of a store are. -/
theorem allowedFor_any (store : Store) : store.AllowedFor fun _ => True :=
  ⟨fun _ => trivial, trivial, trivial, fun _ _ _ => trivial⟩

namespace Kept

variable {store} {relation : Session → Session → Prop} {allowed : Change → Prop}
  [IsPreorder Session relation] (kept : Kept relation allowed) (may : store.AllowedFor allowed)
  (rewrites : ∀ report session, relation session { session with report := report })
include kept may rewrites

/-- What the changes of a store keep, the conclusion of a check keeps. -/
theorem conclude : Within relation (store.conclude options) := by
  intro session
  cases fine : session.report.isOk with
  | true =>
      rw [store.conclude_of_isOk options fine]
      exact rewrites _ session
  | false =>
      cases idle : options.dryRun || session.report.corrupt.isEmpty with
      | true =>
          rw [store.conclude_of_idle options fine idle]
          exact refl session
      | false =>
          rw [store.conclude_of_repair options fine idle]
          refine Within.bind (fun start => ?_) (fun moved => ?_) session
          · rw [repair_apply]
            exact IsTrans.trans _ _ _ (rewrites _ start)
              (kept.moveAll may.makes may.moves _ (store.announced start))
          · exact .bind (kept.record _ _).lift fun _ => within_pure _

/-- What events, permitted attempts, reports and the passes keep, the whole check keeps. -/
theorem checkBy {objects : Audit Unit} (passes : Within relation (passes options source objects)) :
    Within relation (store.checkBy options source objects) := by
  have body : Within relation
      (store.concludeAfter options (Store.passes options source objects)) := by
    refine .bind (Within.lift fun session => rewrites _ session) fun _ => ?_
    exact .bind passes fun _ => kept.conclude options may rewrites
  intro session
  have enters := store.checkBy_enters options source objects session
  generalize store.checkBy options source objects session = result at enters ⊢
  cases enters with
  | dryRun dry => exact body session
  | noStore dry absent => exact body session
  | refused dry there alone => exact kept.attempt _ session (may.takes _)
  | locked dry there taken =>
      have began : relation session (store.locked session) :=
        IsTrans.trans _ _ _ (kept.attempt _ session (may.takes _)) (kept.record _ _ _)
      exact IsTrans.trans _ _ _ began
        (IsTrans.trans _ _ _ (body _) (kept.release may.returns _))

end Kept

/-- The later session has the same report. -/
def SameReport (before after : Session) : Prop := after.report = before.report

instance : IsPreorder Session SameReport where
  refl _ := rfl
  trans _ _ _ first second := second.trans first

private theorem kept_sameReport : Kept SameReport fun _ => True :=
    ⟨fun _ _ _ => rfl, fun _ _ _ => rfl⟩

/-- Releasing a lock leaves the report alone. -/
theorem within_sameReport_release (lockPath : Bytes) : Within SameReport (release lockPath) :=
  kept_sameReport.release trivial

/-- However a repair ends, it adds one line to the report. -/
theorem report_repair (session : Session) :
    (store.repair session).2.report = session.report.print store.repairLine := by
  rw [repair_apply]
  have within : Within SameReport (store.moveAll session.report.corrupt) :=
    kept_sameReport.moveAll trivial (fun _ _ _ => trivial) _
  exact within (store.announced session)

end StoreAudit.Store
