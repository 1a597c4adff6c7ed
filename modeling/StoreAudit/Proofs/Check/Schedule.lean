import StoreAudit.Proofs.Check.Course
import StoreAudit.Proofs.Check.Moves
import StoreAudit.Proofs.Check.Visits

/-!
# Checks with workers, in any order

A scheduled check lets its threads take their turns as a schedule says. The check that the program
makes is one of these (`Store.check_eq_checkFollowing`), and none of them does more to a session
than to look at the store and report (`Store.within_passesFollowing`).
-/

namespace StoreAudit

open Audit

namespace Pool

/-- Lets the threads take the steps of a schedule, and fails with the failure of the queue if it has
one. -/
def runFollowing (pool : Pool) (schedule : List PoolThread) : Audit Unit := do
  let last ← pool.follow schedule
  match last.queue.failure with
  | some failure => throw failure
  | none => pure ()

/-- Threads that take turns follow a schedule. -/
theorem takeTurns_eq_follow (count : Nat) (pool : Pool) (session : Session) :
    ∃ schedule, takeTurns count pool session = pool.follow schedule session := by
  induction count generalizing pool session with
  | zero => exact ⟨[], rfl⟩
  | succ count ih =>
      cases turn : pool.turn? with
      | none => exact ⟨[], by simp only [takeTurns, turn]; rfl⟩
      | some thread =>
          obtain ⟨schedule, same⟩ := ih (pool.step thread session).1 (pool.step thread session).2
          refine ⟨thread :: schedule, ?_⟩
          simp only [takeTurns, turn]
          exact same

/-- The program lets its threads take their turns in one of the possible orders. -/
theorem run_eq_runFollowing (pool : Pool) (session : Session) :
    ∃ schedule, pool.run session = pool.runFollowing schedule session := by
  obtain ⟨schedule, same⟩ := takeTurns_eq_follow pool.turnBound pool session
  exact ⟨schedule, bind_lift_congr _ same⟩

end Pool

namespace Store

variable (store : Store) (options : CheckOptions) (source : ScanSource)

/-- The pass over the objects, with the workers, if there are several, following a schedule. -/
def objectsPassFollowing (schedule : List PoolThread) (jobs : Int) : Audit Unit := do
  begin .objects
  let workers := Pool.workersFor jobs
  if workers = 1 then store.checkInOrder source.objects
  else
    trace (ascii "verifying objects with " ++ Decimal.ofNat workers ++ ascii " workers")
    (Pool.start store source.objects workers).runFollowing schedule

/-- The passes of a check whose workers follow a schedule. -/
def passesFollowing (schedule : List PoolThread) : Audit Unit :=
  passes options source (store.objectsPassFollowing source schedule options.jobs)

/-- The whole check, with workers that follow a schedule. -/
def checkFollowing (schedule : List PoolThread) : Audit Verdict :=
  store.checkBy options source (store.objectsPassFollowing source schedule options.jobs)

private theorem objectsPass_eq_objectsPassFollowing (jobs : Int) (session : Session) :
    ∃ schedule, store.objectsPass source jobs session =
      store.objectsPassFollowing source schedule jobs session := by
  by_cases alone : Pool.workersFor jobs = 1
  · refine ⟨[], ?_⟩
    simp only [objectsPass, objectsPassFollowing, checkObjects, alone, if_true]
  · let pool := Pool.start store source.objects (Pool.workersFor jobs)
    let line := ascii "verifying objects with " ++ Decimal.ofNat (Pool.workersFor jobs) ++
      ascii " workers"
    obtain ⟨schedule, same⟩ := pool.run_eq_runFollowing (trace line (begin .objects session).2).2
    refine ⟨schedule, ?_⟩
    simp only [objectsPass, objectsPassFollowing, checkObjects, alone, if_false]
    exact same

private theorem passes_congr {objects others : Audit Unit} {session : Session}
    (same : objects session = others session) :
    passes options source objects session = passes options source others session := by
  unfold passes
  cases options.wantsObjects with
  | true =>
      simp only [if_true]
      rw [bind_apply, bind_apply, same]
  | false => rfl

private theorem holdingLock_congr {α : Type} {body other : Audit α} {session : Session}
    (same : body (store.lock session).2 = other (store.lock session).2) :
    store.holdingLock body session = store.holdingLock other session := by
  rw [holdingLock_apply, holdingLock_apply]
  rcases shape : store.lock session with ⟨_ | held, after⟩
  · rfl
  · rw [shape] at same
    cases held with
    | none => exact same
    | some lockPath => simp only [same]

/-- A check depends on what its pass over the objects does to the session in which the passes
begin. -/
theorem checkBy_congr {objects others : Audit Unit} {session : Session}
    (same : objects (renewed options (if options.dryRun then session else (store.lock session).2)) =
      others (renewed options (if options.dryRun then session else (store.lock session).2))) :
    store.checkBy options source objects session = store.checkBy options source others session := by
  have concludes (start : Session) (same : objects (renewed options start) =
      others (renewed options start)) :
      store.concludeAfter options (passes options source objects) start =
        store.concludeAfter options (passes options source others) start := by
    rw [concludeAfter_apply, concludeAfter_apply, passes_congr _ _ same]
  unfold checkBy
  cases dry : options.dryRun with
  | true =>
      rw [dry, if_pos rfl] at same
      exact concludes session same
  | false =>
      rw [dry, if_neg Bool.false_ne_true] at same
      exact store.holdingLock_congr (concludes _ same)

/-- The check that the program makes is a scheduled one. -/
theorem check_eq_checkFollowing (session : Session) :
    ∃ schedule, store.check options source session =
      store.checkFollowing options source schedule session := by
  obtain ⟨schedule, same⟩ := store.objectsPass_eq_objectsPassFollowing source options.jobs
    (renewed options (if options.dryRun then session else (store.lock session).2))
  rw [check_eq_checkBy]
  exact ⟨schedule, store.checkBy_congr options source same⟩

/-- Whatever a check does while it looks and reports leads to related sessions. -/
structure Looks (relation : Session → Session → Prop) : Prop where
  asks : ∀ feed : Feed, Within relation feed.next
  checks : ∀ pointer, Within relation (store.checkObject pointer)
  reports : ∀ finding, Within relation (report finding)
  records : ∀ level line, Within relation (log level line)
  begins : ∀ pass, Within relation (begin pass)

end Store

section Looks

variable {relation : Session → Session → Prop} [IsPreorder Session relation]

/-- A move leads to a related session if each look and each report does. -/
theorem Pool.Move.within {pool next : Pool} {session after : Session} {thread : PoolThread}
    {event : Option (QueueEvent FoundPointer)} (looks : pool.store.Looks relation)
    (move : Move pool session thread event next after) : relation session after := by
  cases move with
  | rests | pushes | givesUp | awaitsRoom | failsScan | closes | pops | retires | awaitsWork | drops
  | keeps | failsCheck =>
      exact refl session
  | feedFails _ asked | feedEnds _ asked | delivers _ asked | misdelivers _ asked =>
      have asks := looks.asks pool.feed session
      rw [asked] at asks
      exact asks
  | @checkFails _ pointer _ _ _ checked | @findsNothing _ pointer _ _ checked
  | @finds _ pointer _ _ _ checked =>
      have checks := looks.checks pointer session
      rw [checked] at checks
      exact checks
  | reports => exact looks.reports _ session

private theorem Pool.within_follow (schedule : List PoolThread) {pool : Pool}
    (looks : pool.store.Looks relation) : Within relation (pool.follow schedule) := by
  intro session
  induction schedule generalizing pool session with
  | nil => exact refl session
  | cons thread rest ih =>
      obtain ⟨event, move⟩ := pool.move_step thread session
      have later : (pool.step thread session).1.store.Looks relation := by
        rw [move.store_eq]
        exact looks
      exact IsTrans.trans _ _ _ (move.within looks) (ih later _)

namespace Store.Looks

variable {store : Store} (looks : store.Looks relation)
include looks

private theorem drain {visit : ScanItem → Audit Unit}
    (visits : ∀ item, Within relation (visit item))
    (count : Nat) (feed : Feed) : Within relation (Feed.drain visit count feed) := by
  induction count generalizing feed with
  | zero => exact within_pure ()
  | succ count ih =>
      refine .bind (looks.asks feed) fun found => ?_
      rcases found with _ | ⟨item, rest⟩
      · exact within_pure ()
      · exact .bind (visits item) fun _ => ih rest

private theorem visitObject (item : ScanItem) : Within relation (store.visitObject item) := by
  refine .bind (within_liftExcept _) fun pointer => ?_
  refine .bind (looks.checks pointer) fun found => ?_
  cases found with
  | none => exact within_pure ()
  | some finding => exact (looks.reports finding).lift

private theorem visit (item : ScanItem) : Within relation item.visit := by
  have checks : Within relation item.check := by
    cases item with
    | pointer found => exact .bind (looks.records _ _).lift fun _ => within_pure _
    | misplaced _ _ => exact .bind (within_pure ()) fun _ => within_pure _
  refine .bind checks fun found => ?_
  cases found with
  | none => exact within_pure ()
  | some finding => exact (looks.reports finding).lift

private theorem objectsPassFollowing (source : ScanSource) (schedule : List PoolThread) (jobs : Int)
    : Within relation (store.objectsPassFollowing source schedule jobs) := by
  refine .bind (looks.begins .objects).lift fun _ => ?_
  dsimp only
  split
  · exact looks.drain looks.visitObject _ _
  · refine .bind (looks.records _ _).lift fun _ => ?_
    refine .bind (Pool.within_follow schedule looks).lift fun last => ?_
    cases last.queue.failure with
    | some failure => exact within_throw failure
    | none => exact within_pure ()

private theorem pointersPass (source : ScanSource) : Within relation (pointersPass source) :=
  .bind (looks.begins .pointers).lift fun _ => looks.drain looks.visit _ _

/-- In whatever order the steps are taken, the passes of a check keep what their parts keep. -/
theorem passesFollowing (options : CheckOptions) (source : ScanSource)
    (schedule : List PoolThread) :
    Within relation (store.passesFollowing options source schedule) := by
  unfold Store.passesFollowing passes
  have pointers := looks.pointersPass source
  cases options.wantsObjects with
  | true =>
      refine .bind (looks.objectsPassFollowing source schedule _) fun _ => ?_
      cases options.wantsPointers with
      | true => exact pointers
      | false => exact within_pure ()
  | false =>
      cases options.wantsPointers with
      | true => exact pointers
      | false => exact within_pure ()

end Store.Looks

end Looks

namespace Store

variable (store : Store) (options : CheckOptions) (source : ScanSource)

/-- What a check does to its session while it looks is to observe. -/
theorem looks_observes : store.Looks Session.Observes where
  asks feed := feed.scanning_next.within.mono fun _ _ => Session.Scans.observes
  checks pointer session := by
    obtain ⟨_, _, _, examines, _, checked⟩ := store.checkObject_apply pointer session
    rw [checked]
    exact examines.observes
  reports finding session := (within_report finding session).observes
  records level line session := ((heedless_log level line).within session).observes
  begins _ session := ⟨rfl, rfl, rfl, session.sees_self, [], rfl⟩

/-- Whatever the order of the steps, the passes of a check do no more than observe. -/
theorem within_passesFollowing (schedule : List PoolThread) :
    Within Session.Observes (store.passesFollowing options source schedule) :=
  store.looks_observes.passesFollowing options source schedule

/-- While it looks, a check makes no files but those for error streams. -/
theorem looks_spools : store.Looks Session.Spools where
  asks feed := feed.scanning_next.within.mono fun _ _ => Session.Scans.spools
  checks _ := .bind_liftExcept fun _ _ => .bind (Within.lift fun _ => .of_eq rfl) fun _ =>
    .bind (Within.lift fun _ => .of_eq rfl) fun _ => within_liftExcept _
  reports _ _ := .of_eq rfl
  records _ _ _ := .of_eq rfl
  begins _ _ := .of_eq rfl

private theorem kept_spools : Kept Session.Spools fun _ => True :=
  ⟨fun _ _ _ => .of_eq rfl, fun _ _ _ => .of_eq rfl⟩

/-- The only files that a check makes besides those of its store are for the error streams of
children. -/
theorem spools_checkFollowing (schedule : List PoolThread) :
    Within Session.Spools (store.checkFollowing options source schedule) :=
  kept_spools.checkBy options source store.allowedFor_any (fun _ _ => .of_eq rfl)
    (store.looks_spools.passesFollowing options source schedule)

end Store

end StoreAudit
