import StoreAudit.Proofs.Check.Frame
import StoreAudit.Proofs.Check.Workers
import StoreAudit.Proofs.Scan.LastCall

/-!
# A check that is asked to stop

Only the feeds look at the stop signal. If the request comes before the last call on the feed of the
last pass, some feed does not come to its end, so the passes fail and the check does not get to its
conclusion: nothing is repaired and nothing found to be fine (`Store.check_abandons`). What it fails
with is the interruption, or a failure that was met before any look could find the request; with
workers, this is the failure that their queue keeps.
-/

namespace StoreAudit

open Audit
open Session (Raised Unnoticed)

variable {moment : Nat}

private theorem Feed.heeds_drain {visit : ScanItem → Audit Unit}
    (visits : ∀ item, Within Session.Examines (visit item)) (count : Nat)
    (feed : Feed) : Heeds (drain visit count feed) := by
  induction count generalizing feed with
  | zero => exact .of_signal_eq fun _ => rfl
  | succ count ih =>
      refine .bind feed.scanning_next.heeded fun found => ?_
      rcases found with _ | ⟨item, rest⟩
      · exact .of_signal_eq fun _ => rfl
      · exact .bind (.of_signal_eq fun session => (visits item session).alike.signal) fun _ =>
          ih rest

private theorem Store.heeds_pointersPass (source : ScanSource) : Heeds (pointersPass source) :=
  .bind (.of_signal_eq fun _ => rfl) fun _ =>
    Feed.heeds_drain (fun item session => (item.visit_accords session).1) _ _

namespace Pool

variable {pool next : Pool} {session after : Session}

/-- A step whose looks find the request stops the scan. -/
theorem Move.unnoticed {thread : PoolThread} {event : Option (QueueEvent FoundPointer)}
    (move : Move pool session thread event next after)
    (comes : session.signal.raisedAt = some moment) :
    event = none ∧ next.scanner = .failing .interrupted ∨ Unnoticed moment session after := by
  have heeds := pool.feed.scanning_next.heeded moment session comes
  cases move with
  | feedFails _ asked =>
      rw [asked] at heeds
      refine heeds.imp (fun noticed => ?_) id
      cases noticed
      exact ⟨rfl, rfl⟩
  | feedEnds _ asked | delivers _ asked | misdelivers _ asked =>
      rw [asked] at heeds
      exact .inr (heeds.resolve_left nofun)
  | @checkFails _ pointer _ _ _ checked | @findsNothing _ pointer _ _ checked
  | @finds _ pointer _ _ _ checked =>
      obtain ⟨_, last, _, examines, _, same⟩ := pool.store.checkObject_apply pointer session
      obtain rfl : after = last := congrArg Prod.snd (checked.symm.trans same)
      exact .inr (.of_signal_eq comes examines.alike.signal)
  | rests | pushes | givesUp | awaitsRoom | failsScan | closes | pops | retires | awaitsWork | drops
  | keeps | reports | failsCheck => exact .inr (.of_signal_eq comes rfl)

/-- A scan that was interrupted stays so until the queue is told. -/
theorem Move.interrupted {thread : PoolThread} {event : Option (QueueEvent FoundPointer)}
    (move : Move pool session thread event next after)
    (place : pool.scanner = .failing .interrupted) :
    event = some (.failed .interrupted) ∨ next.scanner = .failing .interrupted := by
  cases move with
  | failsScan here =>
      cases place.symm.trans here
      exact .inl rfl
  | feedFails here | feedEnds here | delivers here | misdelivers here | pushes here | givesUp here
  | awaitsRoom here | closes here => cases place.symm.trans here
  | pops | failsCheck =>
      refine .inr ?_
      change pool.scanner.wake = _
      rw [place]
      rfl
  | rests | retires | awaitsWork | checkFails | findsNothing | finds | drops | keeps | reports =>
      exact .inr place

/-- No look has found the request, or the scan is interrupted and its thread has still to tell the
queue. -/
def Heedful (moment : Nat) (start : Session) (reached : Pool × Session) : Prop :=
  Unnoticed moment start reached.2 ∨ reached.1.scanner = .failing .interrupted

/-- One more step before the queue fails. -/
theorem Heedful.move {start : Session} {thread : PoolThread}
    {event : Option (QueueEvent FoundPointer)} (heedful : Heedful moment start (pool, session))
    (move : Move pool session thread event next after) :
    event = some (.failed .interrupted) ∨ Heedful moment start (next, after) := by
  rcases heedful with before | place
  · rcases move.unnoticed before.comes with ⟨-, stopped⟩ | unnoticed
    · exact .inr (.inr stopped)
    · exact .inr (.inl (before.trans unnoticed))
  · exact (move.interrupted place).imp id .inr

private theorem follow_concat (pool : Pool) (schedule : List PoolThread) (thread : PoolThread)
    (session : Session) :
    pool.follow (schedule ++ [thread]) session =
      (pool.follow schedule session).1.step thread (pool.follow schedule session).2 := by
  rw [follow_append]
  rfl

/-- The queue keeps that the threads were interrupted, or a failure that it was told of before that,
and before any look had found the request or while the thread that found it had still to tell. -/
theorem follow_unnoticed (pool : Pool) (schedule : List PoolThread)
    (fine : pool.queue.Keeps none) (comes : session.signal.raisedAt = some moment) :
    let reached := pool.follow schedule session
    reached.1.queue.Keeps reached.1.queue.failure ∧
    (reached.1.queue.failure = none → Heedful moment session reached) ∧
    ∀ failure, reached.1.queue.failure = some failure →
      failure = .interrupted ∨ ∃ earlier later, schedule = earlier ++ later ∧
        (pool.follow earlier session).1.queue.failure = some failure ∧
        Heedful moment session (pool.follow earlier session) := by
  -- From the end of the schedule: what the queue has kept by some step stays kept.
  induction schedule using List.reverseRecOn with
  | nil =>
      have here : pool.follow [] session = (pool, session) := rfl
      rw [here]
      refine ⟨fine.self, fun _ => .inl (.of_signal_eq comes rfl), fun failure failed => ?_⟩
      rw [fine.failure_eq] at failed
      cases failed
  | append_singleton schedule thread ih =>
      obtain ⟨keeps, quiet, met⟩ := ih
      obtain ⟨event, move⟩ := (pool.follow schedule session).1.move_step thread
        (pool.follow schedule session).2
      rw [← follow_concat] at move
      have kept := move.keeps_queue keeps
      have told := kept.failure_eq
      refine ⟨kept.self, ?_⟩
      cases failed : (pool.follow schedule session).1.queue.failure with
      | some failure =>
          rw [failed, Option.some_or] at told
          rw [told]
          refine ⟨nofun, fun kept same => ?_⟩
          cases same
          refine (met failure failed).imp id ?_
          rintro ⟨earlier, later, rfl, first, heedful⟩
          exact ⟨earlier, later ++ [thread], List.append_assoc _ _ _, first, heedful⟩
      | none =>
          rw [failed, Option.none_or] at told
          rcases (quiet failed).move move with rfl | heedful
          · rw [told]
            refine ⟨nofun, fun kept same => ?_⟩
            cases same
            exact .inl rfl
          · exact ⟨fun _ => heedful, fun failure kept =>
              .inr ⟨_, [], (List.append_nil _).symm, kept, heedful⟩⟩

end Pool

namespace Store

variable {store : Store} {options : CheckOptions} {source : ScanSource}
  {schedule : List PoolThread} {start session : Session}

/-- The failure that the passes end with was met before any look found the request. If the queue of
workers keeps it, the queue was told of it before any look found the request, or while the thread
that found it had still to tell the queue. -/
def MeetsFirst (store : Store) (options : CheckOptions) (source : ScanSource)
    (schedule : List PoolThread) (moment : Nat) (start : Session) (failure : Failure)
    (after : Session) : Prop :=
  Unnoticed moment start after ∨
    options.wantsObjects = true ∧ 2 ≤ options.jobs ∧ ∃ earlier later,
      schedule = earlier ++ later ∧
      (store.follow source earlier options.jobs start).1.queue.failure = some failure ∧
      (Unnoticed moment start (store.follow source earlier options.jobs start).2 ∨
        (store.follow source earlier options.jobs start).1.scanner = .failing .interrupted)

private theorem heeds_objectsPassFollowing (store : Store) (source : ScanSource)
    (schedule : List PoolThread) {jobs : Int} (sequential : jobs ≤ 1) :
    Heeds (store.objectsPassFollowing source schedule jobs) := by
  refine .bind (.of_signal_eq fun _ => rfl) fun _ => ?_
  simp only [Pool.workersFor_eq_one sequential, if_true]
  exact Feed.heeds_drain (fun item session => (store.visitObject_accords item session).1) _ _

/-- A pass over the objects that succeeds has not noticed the request, and the failure of one that
fails was met before, if it is not the interruption. -/
theorem objectsPassFollowing_unnoticed (store : Store) (source : ScanSource)
    (schedule : List PoolThread) (wanted : options.wantsObjects = true)
    (comes : start.signal.raisedAt = some moment)
    (finishes : 2 ≤ options.jobs → store.Finishes source schedule options.jobs start) :
    (∀ after, store.objectsPassFollowing source schedule options.jobs start = (.ok (), after) →
      Unnoticed moment start after) ∧
    ∀ failure after, store.objectsPassFollowing source schedule options.jobs start =
        (.error failure, after) →
      failure = .interrupted ∨
        store.MeetsFirst options source schedule moment start failure after := by
  by_cases several : 2 ≤ options.jobs
  · have comesStaffed : (staffed options.jobs start).signal.raisedAt = some moment := comes
    obtain ⟨-, quiet, met⟩ := Pool.follow_unnoticed
      (Pool.start store source.objects (Pool.workersFor options.jobs)) schedule
      (WorkQueue.keeps_start _) comesStaffed
    rw [objectsPassFollowing_apply several]
    cases failed : (store.follow source schedule options.jobs start).1.queue.failure with
    | none =>
        refine ⟨fun after same => ?_, fun failure after same => ?_⟩
        · cases same
          rcases quiet failed with unnoticed | stopped
          · exact ⟨unnoticed.comes, unnoticed.looks⟩
          · -- a thread that has come to its end has told the queue
            have ended := (Pool.isOver_iff.mp (finishes several)).1
            cases ended.symm.trans stopped
        · cases same
    | some failure =>
        refine ⟨fun after same => ?_, fun failure after same => ?_⟩
        · cases same
        · cases same
          refine (met failure failed).imp id ?_
          rintro ⟨earlier, later, split, first, heedful⟩
          exact .inr ⟨wanted, several, earlier, later, split, first,
            heedful.imp_left fun unnoticed => ⟨unnoticed.comes, unnoticed.looks⟩⟩
  · have sequential : options.jobs ≤ 1 := Int.le_of_lt_add_one (Int.lt_of_not_ge several)
    have heeds := store.heeds_objectsPassFollowing source schedule sequential moment start comes
    refine ⟨fun after passed => ?_, fun failure after failed => ?_⟩
    · rw [passed] at heeds
      exact heeds.resolve_left nofun
    · rw [failed] at heeds
      refine heeds.imp (fun noticed => ?_) .inl
      cases noticed
      rfl

private theorem passesFollowing_meets {failure : Failure} {after : Session}
    (comes : start.signal.raisedAt = some moment)
    (finishes : options.wantsObjects = true → 2 ≤ options.jobs →
      store.Finishes source schedule options.jobs start)
    (failed : store.passesFollowing options source schedule start = (.error failure, after)) :
    failure = .interrupted ∨
      store.MeetsFirst options source schedule moment start failure after := by
  have pointers {middle : Session} (unnoticed : Unnoticed moment start middle)
      (failed : (if options.wantsPointers then pointersPass source else pure () : Audit Unit)
        middle = (.error failure, after)) :
      failure = .interrupted ∨
        store.MeetsFirst options source schedule moment start failure after := by
    split at failed
    · have heeds := heeds_pointersPass source moment middle unnoticed.comes
      rw [failed] at heeds
      rcases heeds with noticed | later
      · cases noticed
        exact .inl rfl
      · exact .inr (.inl (unnoticed.trans later))
    · cases failed
  unfold passesFollowing passes at failed
  cases wanted : options.wantsObjects with
  | false =>
      simp only [wanted, Bool.false_eq_true, if_false] at failed
      exact pointers (.of_signal_eq comes rfl) failed
  | true =>
      simp only [wanted, if_true] at failed
      obtain ⟨quiet, met⟩ :=
        store.objectsPassFollowing_unnoticed source schedule wanted comes (finishes wanted)
      rcases shape : store.objectsPassFollowing source schedule options.jobs start with
        ⟨early | _, middle⟩
      · rw [bind_apply_of_error shape] at failed
        cases failed
        exact met failure after shape
      · rw [bind_apply_of_ok shape] at failed
        exact pointers (quiet middle shape) failed

end Store

/-- Without a request to stop, the last call on the feed of the last pass that is wanted comes after
so many looks. -/
inductive ScanSource.EndsAt (source : ScanSource) (options : CheckOptions) (session : Session) :
    Nat → Prop
  | objects {looks : Nat} : options.wantsPointers = false → source.objects.EndsAt session looks →
      source.EndsAt options session looks
  | pointers {looks : Nat} : options.wantsObjects = false → source.pointers.EndsAt session looks →
      source.EndsAt options session looks
  | both {looks : Nat} : options.wantsObjects = true → options.wantsPointers = true →
      (source.objects.contents session).failure = none →
      source.pointers.EndsAt (source.objects.contents session).after looks →
      source.EndsAt options session looks

private theorem Repository.source_ofRepository (repository : Repository) (range : ScanRange)
    (filter : PathFilter) :
    (repository.source range filter).objects.OfRepository ∧
      (repository.source range filter).pointers.OfRepository := by
  refine ⟨⟨List.cons_ne_nil _ _, List.forall_mem_cons.mpr ⟨trivial, fun part member => ?_⟩⟩,
    List.cons_ne_nil _ _, List.forall_mem_singleton.mpr trivial⟩
  split at member
  · obtain rfl := List.mem_singleton.mp member
    trivial
  · cases member

namespace Store

variable {store : Store} {options : CheckOptions} {source : ScanSource}
  {schedule : List PoolThread} {start session : Session}

/-- Passes that succeed in spite of the request have asked for the last time before it came. -/
theorem endsAt_of_passed {after : Session} (objects : source.objects.OfRepository)
    (pointers : source.pointers.OfRepository) (comes : start.signal.raisedAt = some moment)
    (finishes : options.wantsObjects = true → 2 ≤ options.jobs →
      store.Finishes source schedule options.jobs start)
    (passed : store.passesFollowing options source schedule start = (.ok (), after)) :
    ∃ looks, source.EndsAt options start.calmed looks ∧ looks < moment := by
  have differ := Session.raised_calmed comes
  unfold passesFollowing passes at passed
  cases wantsObjects : options.wantsObjects with
  | false =>
      have wantsPointers : options.wantsPointers = true := by
        simp_all [CheckOptions.wantsObjects, CheckOptions.wantsPointers]
      simp only [wantsObjects, wantsPointers, Bool.false_eq_true, if_false, if_true] at passed
      obtain ⟨⟨looks, endsAt, early⟩, -⟩ :=
        Feed.endsAt_of_ended pointers differ (pointersPass_ends passed).1
      exact ⟨looks, .pointers wantsObjects endsAt, early⟩
  | true =>
      simp only [wantsObjects, if_true] at passed
      obtain ⟨_, middle, first, second⟩ := bind_eq_ok passed
      obtain ⟨ended, alike⟩ := objectsPassFollowing_ends (finishes wantsObjects) first
      obtain ⟨⟨looks, endsAt, early⟩, calmEnded, later⟩ :=
        Feed.endsAt_of_ended objects differ ended
      cases wantsPointers : options.wantsPointers with
      | false => exact ⟨looks, .objects wantsPointers endsAt, early⟩
      | true =>
          simp only [wantsPointers, if_true] at second
          obtain ⟨⟨last, endsLast, earlyLast⟩, -⟩ := Feed.endsAt_of_ended pointers
            (later.of_alike alike) (pointersPass_ends second).1
          exact ⟨last, .both wantsObjects wantsPointers calmEnded endsLast, earlyLast⟩

/-- What a check leaves whose passes fail: nothing is attempted but to take the lock and to give it
back, the files are as before but for records of events, and nothing is printed but findings. -/
structure Withdraws (store : Store) (options : CheckOptions) (session after : Session) : Prop where
  changes : ∃ made, after.changes = session.changes ++ made ∧
    ∀ change ∈ made, change = store.taking session ∨ change = .remove store.lockPath
  files : session.Sees after.files
  unchanged : (∀ place, session.journal.sink ≠ .file place) → after.files = session.files
  report : after.report = session.report ∨ ∃ findings : List Finding,
    after.report = findings.foldl Report.add { dryRun := options.dryRun } ∧
      okLine ∉ findings.map Finding.line

end Store

private theorem Finding.line_ne_okLine (finding : Finding) : finding.line ≠ Store.okLine := by
  intro same
  have initial : finding.line.head? = (ascii "o").head? ∨
      finding.line.head? = (ascii "p").head? := by
    cases finding with
    | corruptObject _ _ | openError _ _ _ => exact .inl rfl
    | nonCanonicalPointer _ _ | unexpectedGitObject _ _ => exact .inr rfl
  rw [same] at initial
  revert initial
  decide

namespace Store

variable {store : Store} {options : CheckOptions} {source : ScanSource}
  {schedule : List PoolThread} {session : Session}

private theorem withdraws_of_observes {start reached after : Session} {made : List Change}
    (observes : (renewed options start).Observes reached)
    (changes : after.changes = session.changes ++ made)
    (only : ∀ change ∈ made, change = store.taking session ∨ change = .remove store.lockPath)
    (sees : session.Sees after.files) (report : after.report = reached.report) :
    store.Withdraws options session after := by
  refine ⟨⟨made, changes, only⟩, sees, sees.eq_of_noFile, .inr ?_⟩
  obtain ⟨findings, reported⟩ := observes.report
  refine ⟨findings, report.trans reported, fun printed => ?_⟩
  obtain ⟨finding, -, same⟩ := List.mem_map.mp printed
  exact finding.line_ne_okLine same

/-- A check whose passes fail withdraws, and fails with them unless it did not get its lock. -/
theorem checkBy_withdraws {objects : Audit Unit} {failure : Failure} {reached : Session}
    (within : Within Session.Observes (passes options source objects))
    (failed : passes options source objects (store.entered options session) =
      (.error failure, reached)) :
    let result := store.checkBy options source objects session
    store.Withdraws options session result.2 ∧ ∃ ending, result.1 = .error ending ∧
      (ending = failure ∧ result.2.signal = reached.signal ∨
        result.2.signal = session.signal) := by
  have observes := within (store.entered options session)
  rw [failed] at observes
  have enters := store.checkBy_enters options source objects session
  dsimp only
  generalize store.checkBy options source objects session = result at enters ⊢
  cases enters with
  | dryRun dry =>
      rw [store.entered_of_dryRun dry] at failed observes
      rw [concludeAfter_apply, failed]
      exact ⟨withdraws_of_observes observes (observes.changes.trans (List.append_nil _).symm)
        (by simp) observes.files rfl, failure, rfl, .inl ⟨rfl, rfl⟩⟩
  | noStore dry absent =>
      rw [store.entered_of_noDirectory dry absent] at failed observes
      rw [concludeAfter_apply, failed]
      exact ⟨withdraws_of_observes observes (observes.changes.trans (List.append_nil _).symm)
        (by simp) observes.files rfl, failure, rfl, .inl ⟨rfl, rfl⟩⟩
  | refused dry there alone =>
      have files : (attempted session (store.taking session)).files = session.files :=
        congrArg Prod.fst alone
      refine ⟨⟨⟨[store.taking session], rfl, by simp⟩, ⟨[], files⟩, fun _ => files, .inl rfl⟩, ?_⟩
      exact ⟨_, rfl, .inr rfl⟩
  | locked dry there taken =>
      rw [store.entered_of_made dry there taken] at failed observes
      rw [concludeAfter_apply, failed]
      have spares : (store.locked session).Spares reached :=
        IsTrans.trans _ _ _ (spares_renewed options _) observes.spares
      obtain ⟨changes, report, sees, -⟩ := store.release_restores taken spares
      exact ⟨withdraws_of_observes observes changes (by simp) sees report, failure, rfl,
        .inl ⟨rfl, signal_release _ _⟩⟩

/-- The check withdraws, makes no other files than those for the error streams of children, which
are removed at once, and fails with the interruption or with a failure that it met before. -/
structure Abandons (store : Store) (options : CheckOptions) (source : ScanSource)
    (schedule : List PoolThread) (moment : Nat) (session : Session)
    (result : Except Failure Verdict × Session) : Prop where
  withdraws : store.Withdraws options session result.2
  spools : session.Spools result.2
  fails : ∃ failure, result.1 = .error failure ∧ (failure = .interrupted ∨
    store.MeetsFirst options source schedule moment (store.entered options session) failure
      result.2)

private theorem checkFollowing_abandons (objects : source.objects.OfRepository)
    (pointers : source.pointers.OfRepository) (comes : session.signal.raisedAt = some moment)
    (early : ∀ looks, source.EndsAt options (store.entered options session).calmed looks →
      moment ≤ looks)
    (completes : store.Completes options source schedule session) :
    store.Abandons options source schedule moment session
      (store.checkFollowing options source schedule session) := by
  have comesLater : (store.entered options session).signal.raisedAt = some moment := by
    rw [signal_entered, comes]
  rcases shape : store.passesFollowing options source schedule (store.entered options session) with
    ⟨failure | _, reached⟩
  · obtain ⟨withdraws, ending, ended, cause⟩ :=
      checkBy_withdraws (store.within_passesFollowing options source schedule) shape
    have spools := store.spools_checkFollowing options source schedule session
    refine ⟨withdraws, spools, ending, ended, ?_⟩
    rcases cause with ⟨rfl, signal⟩ | unlooked
    · have meets := passesFollowing_meets comesLater completes shape
      refine meets.imp id (.imp (fun unnoticed => ?_) id)
      exact ⟨signal ▸ unnoticed.comes, signal ▸ unnoticed.looks⟩
    · refine .inr (.inl (.of_signal_eq comesLater ?_))
      exact unlooked.trans (store.signal_entered options session).symm
  · obtain ⟨looks, endsAt, late⟩ :=
      endsAt_of_passed objects pointers comesLater completes shape
    exact absurd (early looks endsAt) (Nat.not_le_of_lt late)

/-- **A check that is asked to stop repairs nothing.** If the request comes before the call that
would report the end of the last feed, the check fails, in whatever order its workers take their
turns (however these begin, they can go on so that all come to their end): as interrupted, or with a
failure that it met before a look could find the request. Besides making and removing files for the
error streams of git, it attempts no change but to take its lock and to give it back. It leaves the
files it found but for records of events, and does not say that everything is fine. -/
theorem check_abandons (store : Store) (repository : Repository) (range : ScanRange)
    (filter : PathFilter) (options : CheckOptions) {session : Session} {moment : Nat}
    (comes : session.signal.raisedAt = some moment)
    (early : ∀ looks, (repository.source range filter).EndsAt options
      (store.entered options session).calmed looks → moment ≤ looks) :
    let source := repository.source range filter
    (∀ schedule, store.Completes options source schedule session →
      store.Abandons options source schedule moment session
        (store.checkFollowing options source schedule session)) ∧
    (∀ earlier, ∃ later, store.Completes options source (earlier ++ later) session) ∧
    ∃ schedule, store.Completes options source schedule session ∧
      store.Abandons options source schedule moment session
        (store.check options source session) := by
  intro source
  obtain ⟨objects, pointers⟩ := repository.source_ofRepository range filter
  have always (schedule : List PoolThread)
      (completes : store.Completes options source schedule session) :=
    checkFollowing_abandons objects pointers comes early completes
  refine ⟨always, fun earlier => store.exists_completes_append options source earlier session, ?_⟩
  obtain ⟨schedule, completes, same⟩ := store.exists_completes options source session
  rw [same]
  exact ⟨schedule, completes, always schedule completes⟩

/-- The request comes while the tree of the first of two commits is looked at. -/
theorem check_abandons_of_request_in_tree :
    let store : Store := ⟨ascii "s"⟩
    let options : CheckOptions := { pointers := true }
    let source := TreeScan.trackedFirst.source { stop := ascii "tip" } {}
    let session : Session :=
      { files := { entries := [([ascii "s"], .directory)] }, signal := { raisedAt := some 1 } }
    session.signal.requested = false ∧ ∃ schedule,
      store.Abandons options source schedule 1 session (store.check options source session) := by
  intro store options source session
  have early (looks : Nat) (endsAt : source.EndsAt options
      (store.entered options session).calmed looks) : 1 ≤ looks := by
    -- The first call delivers an item, and the last comes after its look.
    have first : (source.pointers.next (store.entered options session).calmed).1.toOption.map
          Option.isSome = some true ∧
        1 ≤ (source.pointers.next (store.entered options session).calmed).2.signal.polls := by
      decide +kernel
    cases endsAt with
    | objects unwanted => cases unwanted
    | both wanted => cases wanted
    | pointers _ endsAt =>
        cases endsAt with
        | ends asked =>
            rw [asked] at first
            cases first.1
        | item asked later =>
            rw [asked] at first
            exact Nat.le_trans first.2 later.polls_le
  obtain ⟨schedule, -, abandons⟩ :=
    (check_abandons store TreeScan.trackedFirst { stop := ascii "tip" } {} options rfl early).2.2
  exact ⟨rfl, schedule, abandons⟩

/-- A check that is asked to stop at its beginning still writes to an open journal file. -/
theorem interrupted_check_writes_open_journal :
    let store : Store := ⟨ascii "s"⟩
    let session : Session :=
      { files := { entries := [([ascii "log"], .file [])] }
        journal := { level := Journal.traceLevel, sink := .file [ascii "log"] }
        signal := { raisedAt := some 0 } }
    let result := store.check { dryRun := true }
      (TreeScan.trackedFirst.source { stop := ascii "tip" } {}) session
    result.1 = .error .interrupted ∧ result.2.files ≠ session.files := by
  decide +kernel

end Store

end StoreAudit
