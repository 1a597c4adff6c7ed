import StoreAudit.Proofs.Check.Account
import StoreAudit.Proofs.Check.InOrder
import StoreAudit.Proofs.Check.Schedule
import StoreAudit.Proofs.Report

/-!
# Passes with workers and without

A pass over the objects whose workers come to their end, in whatever order they took their turns,
fails if and only if the pass without workers does, and else has found the same
(`Store.objectsPassFollowing_cases`).
-/

namespace StoreAudit

open Audit Judgement

private theorem Feed.Contents.judgements_eq (contents : Feed.Contents)
    {judge : Nat → ScanItem → Judgement} {other : ScanItem → Judgement}
    (same : ∀ index, ∀ item ∈ contents.items, judge index item = other item) :
    contents.judgements judge =
      contents.items.map other ++ contents.failure.toList.map .error := by
  have items : contents.items.mapIdx judge = contents.items.map other := by
    apply List.ext_getElem (by simp)
    intro index inside _
    rw [List.getElem_mapIdx, List.getElem_map]
    exact same index _ (List.getElem_mem _)
  rw [judgements, items]

namespace Store

variable (store : Store) (source : ScanSource)

/-- The judgements of the objects of a source, in the files as they are. -/
def objectJudgements (session : Session) : List Judgement :=
  let contents := source.objects.contents session
  contents.items.map (store.judge session.files) ++ contents.failure.toList.map .error

variable {store source}

/-- If the feed ends well and nothing judged fails, the findings are what is due. -/
theorem objectJudgements_settled {session : Session}
    (ended : (source.objects.contents session).failure = none)
    (judged : ∀ item ∈ (source.objects.contents session).items,
      ∃ found, store.judge session.files item = .ok found) :
    failure? (store.objectJudgements source session) = none ∧
      findings (store.objectJudgements source session) =
        (source.objects.contents session).items.flatMap (store.due session.files) := by
  have only : store.objectJudgements source session =
      (source.objects.contents session).items.map (store.judge session.files) := by
    rw [objectJudgements, ended]
    exact List.append_nil _
  have fine : failure? (store.objectJudgements source session) = none := by
    rw [only, failure?_eq_none_iff]
    intro judgement member
    obtain ⟨item, among, rfl⟩ := List.mem_map.mp member
    exact judged item among
  refine ⟨fine, ?_⟩
  rw [findings_of_no_failure fine, only, List.flatMap_map]
  rfl

/-- What makes a pool fail is a failure of the judgements. -/
theorem Causes.failure? {session : Session} {failure : Failure}
    (causes : store.Causes session.files (source.objects.contents session) failure) :
    failure? (store.objectJudgements source session) ≠ none := by
  rw [ne_eq, failure?_eq_none_iff]
  intro fine
  have among {item : ScanItem} (member : item ∈ (source.objects.contents session).items) :
      store.judge session.files item ∈ store.objectJudgements source session :=
    List.mem_append_left _ (List.mem_map_of_mem member)
  cases causes with
  | @feed failure ended =>
      have last : .error failure ∈ store.objectJudgements source session := by
        rw [objectJudgements, ended]
        simp
      obtain ⟨found, impossible⟩ := fine _ last
      cases impossible
  | misplaced member =>
      obtain ⟨found, impossible⟩ := fine _ (among member)
      cases impossible
  | check member judged =>
      obtain ⟨found, impossible⟩ := fine _ (among member)
      cases judged.symm.trans impossible

/-- A sequential pass that does not read its own journal does as judged in the files at its start.
-/
theorem objectsPass_accords_judgements {session : Session}
    (avoids : store.AvoidsJournal session (source.objects.contents session).items) :
    Accords session (store.objectsPass source 1 session) (store.objectJudgements source session) ∧
      (failure? (store.objectJudgements source session) = none →
        (store.objectsPass source 1 session).2.Alike (source.objects.contents session).after) := by
  obtain ⟨view, sees, accords, alike⟩ := store.objectsPass_accords source (Int.le_refl 1) session
  have same : (source.objects.contents session).judgements (fun index => store.judge (view index)) =
      store.objectJudgements source session :=
    (source.objects.contents session).judgements_eq fun index _ member =>
      judge_of_sees avoids (sees index) member
  rw [same] at accords alike
  exact ⟨accords, alike⟩

/-- Records do not decide whether the pass fails. -/
theorem objectsPass_eq_ok_iff {session : Session} :
    (store.objectsPass source 1 session).1 = .ok () ↔
      failure? (store.objectJudgements source session) = none := by
  obtain ⟨view, sees, accords, -⟩ := store.objectsPass_accords source (Int.le_refl 1) session
  rw [accords.outcome, outcome_eq_ok, Feed.Contents.judgements, objectJudgements,
    failure?_append_eq_none, failure?_append_eq_none, and_congr_left_iff]
  intro _
  rw [failure?_eq_none_iff, failure?_eq_none_iff]
  constructor
  · intro fine judgement member
    obtain ⟨item, among, rfl⟩ := List.mem_map.mp member
    obtain ⟨index, inside, rfl⟩ := List.getElem_of_mem among
    have judged := fine _ (List.mem_mapIdx.mpr ⟨index, inside, rfl⟩)
    exact (judge_ok_iff_of_sees (sees index)).mp judged
  · intro fine judgement member
    obtain ⟨index, inside, rfl⟩ := List.mem_mapIdx.mp member
    have judged := fine _ (List.mem_map_of_mem (List.getElem_mem inside))
    exact (judge_ok_iff_of_sees (sees index)).mpr judged

variable (store source)

/-- The session in which the workers of a pass begin. -/
def staffed (jobs : Int) (session : Session) : Session :=
  (trace (ascii "verifying objects with " ++ Decimal.ofNat (Pool.workersFor jobs) ++
    ascii " workers") (begin .objects session).2).2

/-- Where a schedule leads the workers of a pass. -/
def follow (schedule : List PoolThread) (jobs : Int) (session : Session) : Pool × Session :=
  (Pool.start store source.objects (Pool.workersFor jobs)).follow schedule (staffed jobs session)

/-- A schedule by which every thread of a pass comes to its end. -/
def Finishes (schedule : List PoolThread) (jobs : Int) (session : Session) : Prop :=
  (store.follow source schedule jobs session).1.isOver = true

instance (schedule : List PoolThread) (jobs : Int) (session : Session) :
    Decidable (store.Finishes source schedule jobs session) :=
  inferInstanceAs (Decidable (_ = true))

variable {store source} {jobs : Int} {schedule : List PoolThread} {session : Session}

private theorem workersFor_of_several (several : 2 ≤ jobs) :
    Pool.workersFor jobs ≠ 1 ∧ 0 < Pool.workersFor jobs := by
  unfold Pool.workersFor
  simp only [Pool.maxWorkers]
  omega

/-- Several workers come to an end together, which is that of their queue. -/
theorem objectsPassFollowing_apply (several : 2 ≤ jobs) :
    store.objectsPassFollowing source schedule jobs session =
      (match (store.follow source schedule jobs session).1.queue.failure with
        | some failure => .error failure
        | none => .ok (),
      (store.follow source schedule jobs session).2) := by
  have alone := (workersFor_of_several several).1
  have same : store.objectsPassFollowing source schedule jobs session =
      (match (store.follow source schedule jobs session).1.queue.failure with
        | some failure => throw failure
        | none => pure () : Audit Unit) (store.follow source schedule jobs session).2 := by
    simp only [objectsPassFollowing, alone, if_false]
    rfl
  rw [same]
  cases (store.follow source schedule jobs session).1.queue.failure <;> rfl

private theorem accounted_follow (schedule : List PoolThread) (several : 2 ≤ jobs) :
    Pool.Sound (store.follow source schedule jobs session).1 ∧
      Pool.Accounted store session (source.objects.contents session)
        (store.follow source schedule jobs session).1
        (store.follow source schedule jobs session).2 := by
  have staff := (workersFor_of_several several).2
  have examines : session.Examines (staffed jobs session) :=
    IsTrans.trans _ _ _ (⟨⟨rfl, rfl, rfl, session.sees_self, [], rfl⟩, ⟨rfl, rfl, rfl⟩⟩ :
      session.Examines (begin .objects session).2) (examines_trace _ _)
  obtain ⟨events, course⟩ := Pool.course_follow schedule
    (Pool.start store source.objects (Pool.workersFor jobs)) (staffed jobs session)
  refine ⟨?_, ?_⟩
  · exact course.keeps (fun {_ _ _ _ _ _} sound move => move.sound sound)
      (Pool.sound_opening store source.objects (Nat.mul_pos staff (by decide)) staff)
  · exact course.accounted
      (Pool.accounted_start store source.objects _ examines.observes examines.alike rfl rfl)

/-- Whatever turns the workers of a pass have taken, they can come to their end. -/
theorem exists_finishes_append (source : ScanSource) (several : 2 ≤ jobs)
    (schedule : List PoolThread) (session : Session) :
    ∃ rest, store.Finishes source (schedule ++ rest) jobs session := by
  have staff := (workersFor_of_several several).2
  have sound : Pool.Sound (Pool.start store source.objects (Pool.workersFor jobs)) :=
    Pool.sound_opening store source.objects (Nat.mul_pos staff (by decide)) staff
  exact Pool.exists_isOver_follow_append sound schedule (staffed jobs session)

/-- How a pass ends whose workers have come to their end. -/
theorem objectsPassFollowing_cases (several : 2 ≤ jobs)
    (finishes : store.Finishes source schedule jobs session) :
    let result := store.objectsPassFollowing source schedule jobs session
    (∃ failure, result.1 = .error failure ∧
        store.Causes session.files (source.objects.contents session) failure) ∨
      failure? (store.objectJudgements source session) = none ∧
        result.2.Alike (source.objects.contents session).after ∧
        result.2.opened.Perm
          (session.opened ++ (source.objects.contents session).items.flatMap store.opens) ∧
        ∃ reported : List Finding,
          Accords session result (reported.map fun finding => .ok (some finding)) ∧
          (store.AvoidsJournal session (source.objects.contents session).items →
            reported.Perm (findings (store.objectJudgements source session))) := by
  obtain ⟨sound, accounted⟩ := accounted_follow schedule several
  rw [objectsPassFollowing_apply several]
  cases failed : (store.follow source schedule jobs session).1.queue.failure with
  | some failure => exact .inl ⟨failure, rfl, accounted.caused failure failed⟩
  | none =>
      obtain ⟨ended, alike, judged, opened, reported, report, perm⟩ :=
        accounted.settled sound finishes failed
      obtain ⟨fine, dues⟩ := objectJudgements_settled ended judged
      obtain ⟨told, noFailure⟩ := findings_map_some reported
      refine .inr ⟨fine, alike, opened, reported, ⟨accounted.observes, ?_, ?_⟩, dues ▸ perm⟩
      · rw [Judgement.outcome, noFailure]
      · rw [told]
        exact report

/-- A pass that succeeds has come to the end of its feed. -/
theorem objectsPassFollowing_ends {last : Session}
    (finishes : 2 ≤ jobs → store.Finishes source schedule jobs session)
    (passed : store.objectsPassFollowing source schedule jobs session = (.ok (), last)) :
    (source.objects.contents session).failure = none ∧
      last.Alike (source.objects.contents session).after := by
  by_cases several : 2 ≤ jobs
  · have cases := objectsPassFollowing_cases several (finishes several)
    rw [passed] at cases
    rcases cases with ⟨failure, impossible, -⟩ | ⟨fine, alike, -⟩
    · cases impossible
    · exact ⟨failure?_toList_eq_none (failure?_append_eq_none.mp fine).2, alike⟩
  · have alone : Pool.workersFor jobs = 1 := Pool.workersFor_eq_one (by omega)
    have begun : (begin .objects session).2.Alike session := ⟨rfl, rfl, rfl⟩
    refine Feed.drain_ends store.judge store.visitObject_accords begun ?_
    rw [← passed, objectsPassFollowing, bind_lift_apply]
    simp only [alone, if_true]
    rfl

/-- There is a schedule by which every thread comes to its end: the one that the program follows. -/
theorem exists_finishes (several : 2 ≤ jobs) (session : Session) :
    ∃ schedule, store.Finishes source schedule jobs session ∧
      store.objectsPass source jobs session =
        store.objectsPassFollowing source schedule jobs session := by
  obtain ⟨alone, staff⟩ := workersFor_of_several several
  let pool := Pool.start store source.objects (Pool.workersFor jobs)
  obtain ⟨schedule, same⟩ :=
    Pool.takeTurns_eq_follow pool.turnBound pool (staffed jobs session)
  refine ⟨schedule, ?_, ?_⟩
  · have ends := Pool.isOver_takeTurns_start store source.objects staff (staffed jobs session)
    rw [show Pool.takeTurns _ _ _ = _ from same] at ends
    exact ends
  · have run : pool.run (staffed jobs session) =
        pool.runFollowing schedule (staffed jobs session) := bind_lift_congr _ same
    simp only [objectsPass, objectsPassFollowing, checkObjects, alone, if_false]
    exact run

/-- All threads that the check starts come to their end by the schedule. -/
def Completes (store : Store) (options : CheckOptions) (source : ScanSource)
    (schedule : List PoolThread) (session : Session) : Prop :=
  options.wantsObjects = true → 2 ≤ options.jobs →
    store.Finishes source schedule options.jobs (store.entered options session)

/-- Whatever turns the threads of a check have taken, they can come to their end. -/
theorem exists_completes_append (store : Store) (options : CheckOptions) (source : ScanSource)
    (schedule : List PoolThread) (session : Session) :
    ∃ rest, store.Completes options source (schedule ++ rest) session := by
  by_cases several : 2 ≤ options.jobs
  · obtain ⟨rest, finishes⟩ :=
      store.exists_finishes_append source several schedule (store.entered options session)
    exact ⟨rest, fun _ _ => finishes⟩
  · exact ⟨[], fun _ more => absurd more several⟩

/-- The check that the program makes follows a schedule by which all threads come to their end. -/
theorem exists_completes (store : Store) (options : CheckOptions) (source : ScanSource)
    (session : Session) :
    ∃ schedule, store.Completes options source schedule session ∧
      store.check options source session =
        store.checkFollowing options source schedule session := by
  by_cases several : 2 ≤ options.jobs
  · obtain ⟨schedule, finishes, same⟩ := exists_finishes several (store.entered options session)
    rw [check_eq_checkBy]
    exact ⟨schedule, fun _ _ => finishes, store.checkBy_congr options source same⟩
  · obtain ⟨schedule, same⟩ := store.check_eq_checkFollowing options source session
    exact ⟨schedule, fun _ more => absurd more several, same⟩

end Store

end StoreAudit
