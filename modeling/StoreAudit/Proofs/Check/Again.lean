import StoreAudit.Proofs.Check.Together
import StoreAudit.Proofs.Check.Verdicts
import StoreAudit.Proofs.Store.Aftermath

/-!
# Checking a repaired store again

After a check that moved what it found corrupt, a dry check of the same objects finds exactly that
those are missing now, but for pointers to the empty content, and a check that repairs again fails
at the first of them and moves nothing (`Store.check_again`).
-/

namespace StoreAudit

open Audit Judgement FileTree

/-- While the stop signal is this one, the feed delivers these items and comes to its end. -/
def Feed.Offers (feed : Feed) (items : List ScanItem) (signal : Signal) : Prop :=
  ∀ session : Session, session.signal = signal →
    (feed.contents session).items = items ∧ (feed.contents session).failure = none

private theorem Feed.offers_listed (items : List ScanItem) (signal : Signal) :
    Feed.Offers [.listed items none] items signal := by
  intro session _
  induction items with
  | nil =>
      have ended : Feed.next [.listed [] none] session = (.ok none, session) := rfl
      rw [contents_of_end ended]
      exact ⟨rfl, rfl⟩
  | cons item rest ih =>
      have delivered : Feed.next [.listed (item :: rest) none] session =
          (.ok (some (item, [.listed rest none])), session) := rfl
      rw [contents_of_item delivered]
      exact ⟨congrArg (item :: ·) ih.1, ih.2⟩

namespace Store

variable {store : Store} {source : ScanSource} {jobs : Int} {dryRun : Bool}
  {session later : Session} {pointers : List FoundPointer}

/-- A check of the objects only. -/
def objectsOnly (dryRun : Bool) (jobs : Int) : CheckOptions :=
  { dryRun := dryRun, objects := true, jobs := jobs }

private theorem passes_objectsOnly (sequential : jobs ≤ 1) (session : Session) :
    passes (objectsOnly dryRun jobs) source (store.objectsPass source jobs) session =
      store.objectsPass source 1 session := by
  have alone : store.objectsPass source jobs = store.objectsPass source 1 := by
    simp only [objectsPass, checkObjects, Pool.workersFor_eq_one sequential,
      Pool.workersFor_eq_one (Int.le_refl 1), if_true]
  have wanted : (objectsOnly dryRun jobs).wantsObjects = true := rfl
  have nothing : wantedPointers (objectsOnly dryRun jobs) source = pure () := rfl
  rw [passes_eq, wanted, if_pos rfl, nothing, alone, bind_apply]
  rcases store.objectsPass source 1 session with ⟨_ | _, _⟩ <;> rfl

/-- What is wrong with the objects of pointers in some files. -/
def judgements (store : Store) (files : FileTree) (pointers : List FoundPointer) :
    List Judgement :=
  pointers.map fun pointer => store.judge files (.pointer pointer)

private theorem accords_objectsOnly (sequential : jobs ≤ 1)
    (offers : source.objects.Offers (pointers.map .pointer) session.signal)
    (avoids : store.AvoidsJournal session (pointers.map .pointer)) :
    Accords session
      (passes (objectsOnly dryRun jobs) source (store.objectsPass source jobs) session)
      (store.judgements session.files pointers) := by
  obtain ⟨items, ended⟩ := offers session rfl
  rw [← items] at avoids
  have same : store.objectJudgements source session = store.judgements session.files pointers := by
    rw [objectJudgements, items, ended, Store.judgements, List.map_map]
    exact List.append_nil _
  rw [passes_objectsOnly sequential, ← same]
  exact (objectsPass_accords_judgements avoids).1

section Judge

variable {pointer : FoundPointer} {files other : FileTree}

private theorem judge_of_valid (valid : Digest.isText pointer.oid = true) :
    store.judge files (.pointer pointer) =
      pointer.problemAt? files (store.pathOf pointer.oid) := by
  rw [judge_pointer, objectPath, if_pos valid]

private theorem judge_congr (valid : Digest.isText pointer.oid = true)
    (same : other.entryOf (store.pathOf pointer.oid) =
      files.entryOf (store.pathOf pointer.oid)) :
    store.judge other (.pointer pointer) = store.judge files (.pointer pointer) := by
  rw [judge_of_valid valid, judge_of_valid valid]
  simp only [FoundPointer.problemAt?, openForReading, same]

/-- The objects that a check reports missing because they are not where their paths lead. -/
theorem judge_of_noEntry (valid : Digest.isText pointer.oid = true)
    (absent : files.entryOf (store.pathOf pointer.oid) = .error .noEntry) :
    store.judge files (.pointer pointer) = .ok (if pointer.size = 0 then none
      else some (.openError pointer.name pointer.oid Errno.noEntry.text)) := by
  rw [judge_of_valid valid]
  simp only [FoundPointer.problemAt?, openForReading, absent, FoundPointer.problemOf?]
  by_cases empty : pointer.size = 0 <;> simp [empty]

/-- What is found wrong with an object names it. -/
theorem oid_of_judge (valid : Digest.isText pointer.oid = true) {finding : Finding}
    (judged : store.judge files (.pointer pointer) = .ok (some finding)) :
    finding.oid = pointer.oid := by
  rw [judge_of_valid valid] at judged
  unfold FoundPointer.problemAt? FoundPointer.problemOf? at judged
  split at judged
  · split at judged <;> cases judged
    rfl
  · split at judged
    · cases judged
    · split at judged <;> cases judged
      rfl

/-- A directory cannot be judged. -/
theorem noDirectory_of_judge (valid : Digest.isText pointer.oid = true) {found : Option Finding}
    (judged : store.judge files (.pointer pointer) = .ok found) {place : Place} {entry : Entry}
    (there : files.entryOf (store.pathOf pointer.oid) = .ok (place, entry)) :
    entry.isDirectory = false := by
  rw [judge_of_valid valid, FoundPointer.problemAt?, openForReading, there] at judged
  cases entry with
  | directory | sealedDirectory => cases judged
  | file _ | link _ | device _ => rfl

end Judge

/-- The pointers to objects that were moved, but for those to the empty content. -/
def missing (oids : List Bytes) (pointers : List FoundPointer) : List FoundPointer :=
  pointers.filter fun pointer => pointer.oid ∈ oids ∧ pointer.size ≠ 0

/-- What is said of an object that is not where its path leads. -/
def absence (pointer : FoundPointer) : Finding :=
  .openError pointer.name pointer.oid Errno.noEntry.text

section SecondLook

variable {journal : Journal} {tree files : FileTree} {above : Place} {left : Nat}
  {oids : List Bytes} {judgement : List Judgement}

/-- What a check knows of pointers whose objects it has judged: of those that it does not move
nothing is wrong, and the open journal file is none of them. -/
structure Judged (store : Store) (journal : Journal) (tree : FileTree) (oids : List Bytes)
    (pointers : List FoundPointer) : Prop where
  valid : ∀ pointer ∈ pointers, Digest.isText pointer.oid = true
  fine : ∀ pointer ∈ pointers, pointer.oid ∉ oids →
    store.judge tree (.pointer pointer) = .ok none
  unlogged : ∀ pointer ∈ pointers, ∀ place entry,
    tree.entryOf (store.pathOf pointer.oid) = .ok (place, entry) → journal.sink ≠ .file place

variable (known : store.Judged journal tree oids pointers) (whole : 0 ∉ store.root)
  (way : store.Way tree above left) (linkless : Linkless tree above)
  (repaired : store.Repaired journal tree files above left oids)
include known whole way linkless repaired

private theorem judge_again {pointer : FoundPointer} (member : pointer ∈ pointers) :
    store.judge files (.pointer pointer) =
      .ok (if pointer.oid ∈ oids ∧ pointer.size ≠ 0 then some (absence pointer) else none) := by
  have valid := known.valid pointer member
  by_cases moved : pointer.oid ∈ oids
  · rw [judge_of_noEntry valid (repaired.entryOf_gone whole valid moved)]
    by_cases empty : pointer.size = 0 <;> simp [moved, empty, absence]
  · rw [judge_congr valid (repaired.entryOf_kept whole valid way linkless moved
      (known.unlogged pointer member)), known.fine pointer member moved]
    simp [moved]

/-- The open journal file is still none of the objects. -/
theorem avoids_again (sink : session.journal = journal) (seen : session.files = files) :
    store.AvoidsJournal session (pointers.map .pointer) := by
  intro pointer path place entry member named found
  obtain ⟨_, among, same⟩ := List.mem_map.mp member
  cases same
  have valid := known.valid pointer among
  rw [objectPath, if_pos valid] at named
  cases named
  rw [seen] at found
  rw [sink]
  by_cases moved : pointer.oid ∈ oids
  · cases (repaired.entryOf_gone whole valid moved).symm.trans found
  · rw [repaired.entryOf_kept whole valid way linkless moved
      (known.unlogged pointer among)] at found
    exact known.unlogged pointer among place entry found

end SecondLook

/-- Looking at the objects of pointers again finds missing what was moved, and nothing else. -/
structure Rereads (store : Store) (oids : List Bytes) (pointers : List FoundPointer)
    (session : Session) : Prop where
  judged : ∀ pointer ∈ pointers, store.judge session.files (.pointer pointer) =
    .ok (if pointer.oid ∈ oids ∧ pointer.size ≠ 0 then some (absence pointer) else none)
  avoids : store.AvoidsJournal session (pointers.map .pointer)

/-- Where nothing was moved, records change nothing. -/
theorem Rereads.of_sees (known : store.Judged session.journal session.files [] pointers)
    (avoids : store.AvoidsJournal session (pointers.map .pointer))
    (journal : later.journal = session.journal) (sees : session.Sees later.files) :
    store.Rereads [] pointers later := by
  refine ⟨fun pointer member => ?_, fun pointer path place entry member named found => ?_⟩
  · rw [judge_of_sees avoids sees (List.mem_map_of_mem member),
      known.fine pointer member List.not_mem_nil]
    simp
  · obtain ⟨events, written⟩ := sees
    rw [journal]
    rw [written] at found
    rcases (session.journal.sameOutline_writeAll session.files events).entryOf_cases path with
      same | ⟨_, _, _, before, after, -⟩
    · exact avoids pointer path place entry member named (same ▸ found)
    · cases after.symm.trans found
      exact avoids pointer path _ _ member named before

private theorem Rereads.of_repaired {tree : FileTree} {above : Place} {left : Nat}
    {oids : List Bytes}
    (known : store.Judged session.journal tree oids pointers) (whole : 0 ∉ store.root)
    (way : store.Way tree above left) (linkless : Linkless tree above)
    (repaired : store.Repaired session.journal tree session.files above left oids) :
    store.Rereads oids pointers session :=
  ⟨fun _ member => judge_again known whole way linkless repaired member,
    avoids_again known whole way linkless repaired rfl rfl⟩

private theorem Rereads.accords {oids : List Bytes} (rereads : store.Rereads oids pointers session)
    (dryRun : Bool) (sequential : jobs ≤ 1)
    (offers : source.objects.Offers (pointers.map .pointer) session.signal) :
    ∃ judgements, failure? judgements = none ∧
      findings judgements = (missing oids pointers).map absence ∧
      Accords (renewed (objectsOnly dryRun jobs) session)
        (passes (objectsOnly dryRun jobs) source (store.objectsPass source jobs)
          (renewed (objectsOnly dryRun jobs) session)) judgements := by
  have same : store.judgements session.files pointers = pointers.map fun pointer => .ok
      (if pointer.oid ∈ oids ∧ pointer.size ≠ 0 then some (absence pointer) else none) :=
    List.map_congr_left rereads.judged
  obtain ⟨fine, found⟩ := findings_map_ite pointers
    (fun pointer => pointer.oid ∈ oids ∧ pointer.size ≠ 0) absence
  rw [← same] at fine found
  exact ⟨_, fine, found, accords_objectsOnly sequential offers rereads.avoids⟩

/-- A check that leaves the files alone but for records and finds just that the objects of some
pointers are missing, one after the other. -/
structure FindsMissing (gone : List FoundPointer) (session : Session)
    (result : Except Failure Verdict × Session) : Prop where
  verdict : ∃ verdict, result.1 = .ok verdict ∧ (verdict.status = 0 ↔ gone = []) ∧
    (verdict.status = 1 ↔ gone ≠ [])
  findings : result.2.report.findings = gone.map absence
  spares : session.Spares result.2
  files : (∀ place, session.journal.sink ≠ .file place) → result.2.files = session.files

/-- A dry check that finds missing what was moved. -/
theorem check_dry_again {oids : List Bytes} (rereads : store.Rereads oids pointers session)
    (sequential : jobs ≤ 1)
    (offers : source.objects.Offers (pointers.map .pointer) session.signal) :
    FindsMissing (missing oids pointers) session
      (store.check (objectsOnly true jobs) source session) := by
  obtain ⟨judgements, fine, found, accords⟩ := rereads.accords true sequential offers
  have course : store.check (objectsOnly true jobs) source session =
      store.concludeAfter (objectsOnly true jobs)
        (passes (objectsOnly true jobs) source (store.objectsPass source jobs)) session :=
    congrFun (store.check_eq_checkBy _ source) session
  have spares : session.Spares (store.check (objectsOnly true jobs) source session).2 := by
    obtain ⟨schedule, same⟩ :=
      store.check_eq_checkFollowing (objectsOnly true jobs) source session
    rw [same]
    exact checkFollowing_spares rfl
  obtain ⟨reported, ends⟩ := store.concludeAfter_endsAsJudged accords
  rw [← course, fine, found] at ends
  rw [← course, found] at reported
  refine ⟨?_, reported, spares, spares.files.eq_of_noFile⟩
  rcases ends.2.1 with ⟨-, verdict, outcome, clean, corrupt⟩ | ⟨repairs, -⟩
  · exact ⟨verdict, outcome, by simpa using clean, by simpa using corrupt⟩
  · cases repairs

/-- A repair that finds missing what was moved fails at the first of the objects and moves nothing.
-/
theorem concludeAfter_again {tree : FileTree} {above : Place} {left : Nat} {oids : List Bytes}
    {first : FoundPointer} {rest : List FoundPointer} (whole : 0 ∉ store.root)
    (valid : ∀ oid ∈ oids, Digest.isText oid = true)
    (repaired : store.Repaired session.journal tree session.files above left oids)
    (rereads : store.Rereads oids pointers session) (sequential : jobs ≤ 1)
    (offers : source.objects.Offers (pointers.map .pointer) session.signal)
    (gone : missing oids pointers = first :: rest) :
    let result := store.concludeAfter (objectsOnly false jobs)
      (passes (objectsOnly false jobs) source (store.objectsPass source jobs)) session
    result.1 = .error (store.moveFailure first.oid .noEntry) ∧ session.Sees result.2.files := by
  intro result
  have course : result = store.concludeAfter (objectsOnly false jobs)
    (passes (objectsOnly false jobs) source (store.objectsPass source jobs)) session := rfl
  obtain ⟨judgements, fine, found, accords⟩ := rereads.accords false sequential offers
  have moved : first.oid ∈ oids := by
    have member : first ∈ missing oids pointers := gone ▸ List.mem_cons_self
    exact (of_decide_eq_true (List.mem_filter.mp member).2).1
  rw [concludeAfter_apply, accords.eq_ok fine] at course
  have observes := accords.observes
  have report := accords.report
  rw [found, gone] at report
  generalize (passes (objectsOnly false jobs) source (store.objectsPass source jobs)
    (renewed (objectsOnly false jobs) session)).2 = reached at course observes report
  obtain ⟨more, corrupt⟩ : ∃ more, reached.report.corrupt = first.oid :: more := by
    obtain ⟨more, same⟩ := Report.corrupt_prefix_foldl_add
      (Report.add { dryRun := false } (absence first)) (rest.map absence)
    exact ⟨more, report ▸ same.symm⟩
  have notOk : reached.report.isOk = false := by
    rw [report, Report.isOk, Report.findings_foldl_add]
    rfl
  obtain ⟨events, files⟩ : ∃ events,
    reached.files = session.journal.writeAll session.files events := observes.files
  have still := repaired.writeAll events
  rw [← files] at still
  have made := still.makeDirectories whole valid (List.ne_nil_of_mem moved)
  have kept : (store.prepared reached).files = reached.files := congrArg Prod.fst made
  have refused := still.rename_gone whole (valid _ moved) moved
  rw [← kept] at refused
  obtain ⟨after, stopped, filesAfter, -, -⟩ := setAside_of_refused (valid _ moved) refused
  have failed : store.repair reached =
      (.error (store.moveFailure first.oid .noEntry), after) := by
    rw [repair_of_made (congrArg Prod.snd made), corrupt, moveEach]
    exact bind_apply_of_error (bind_apply_of_error stopped)
  dsimp only at course
  rw [store.conclude_of_repair _ notOk (by rw [corrupt]; rfl), repairAndNote,
    bind_apply_of_error failed] at course
  rw [course]
  refine ⟨rfl, ?_⟩
  rw [filesAfter, kept, files]
  exact ⟨events, rfl⟩

/-- A check with a verdict took the lock, if it could be taken at all, made its passes and
concluded, and gave the lock back. -/
theorem course_of_check {options : CheckOptions} {after : Session} {verdict : Verdict}
    (wanted : options.dryRun = false)
    (checked : store.check options source session = (.ok verdict, after)) :
    ∃ reached done,
      passes options source (store.objectsPass source options.jobs)
        (store.entered options session) = (.ok (), reached) ∧
      store.conclude options reached = (.ok verdict, done) ∧
      after.report.corrupt = reached.report.corrupt ∧
      ((session.files.isDirectory store.root = false ∧
          store.entered options session = renewed options session ∧ after = done) ∨
        session.files.isDirectory store.root = true ∧
          (session.files.perform (store.taking session)).2 = .ok () ∧
          store.entered options session = renewed options (store.locked session) ∧
          after = (release store.lockPath done).2) := by
  have enters := store.checkBy_enters options source (store.objectsPass source options.jobs) session
  rw [← check_eq_checkBy, checked] at enters
  have course {begun done : Session}
      (concluded : store.concludeAfter options
        (passes options source (store.objectsPass source options.jobs)) begun =
          (.ok verdict, done)) :
      ∃ reached, passes options source (store.objectsPass source options.jobs)
          (renewed options begun) = (.ok (), reached) ∧
        store.conclude options reached = (.ok verdict, done) ∧
        done.report.corrupt = reached.report.corrupt := by
    rw [concludeAfter_apply] at concluded
    split at concluded
    · rename_i reached passed
      refine ⟨reached, passed, concluded, ?_⟩
      rw [← store.corrupt_conclude options reached, concluded]
    · cases concluded
  generalize result : (Except.ok verdict, after) = ending at enters
  cases enters with
  | dryRun dry => cases wanted.symm.trans dry
  | noStore _ absent =>
      obtain ⟨reached, passed, concluded, corrupt⟩ := course result.symm
      have entered := store.entered_of_noDirectory wanted absent
      exact ⟨reached, after, entered ▸ passed, concluded, corrupt, .inl ⟨absent, entered, rfl⟩⟩
  | refused _ _ _ => cases result
  | locked _ there made =>
      obtain ⟨outcome, rfl⟩ := Prod.mk.inj result
      obtain ⟨reached, passed, concluded, corrupt⟩ := course (Prod.ext outcome.symm rfl)
      have entered := store.entered_of_made wanted there made
      refine ⟨reached, _, entered ▸ passed, concluded, ?_, .inr ⟨there, made, entered, rfl⟩⟩
      rw [show (release store.lockPath _).2.report = _ from
        within_sameReport_release store.lockPath _]
      exact corrupt

/-- A pass that came to its end has judged all objects, and found something wrong with those that it
reports. -/
theorem judged_of_pass {reached : Session} (sequential : jobs ≤ 1)
    (valid : ∀ pointer ∈ pointers, Digest.isText pointer.oid = true)
    (offers : source.objects.Offers (pointers.map .pointer) session.signal)
    (avoids : store.AvoidsJournal session (pointers.map .pointer))
    (consistent : session.report.Consistent) (fresh : session.report.corrupt = [])
    (passed : passes (objectsOnly dryRun jobs) source (store.objectsPass source jobs) session =
      (.ok (), reached)) :
    session.Observes reached ∧
      store.Judged session.journal session.files reached.report.corrupt pointers ∧
      ∀ oid ∈ reached.report.corrupt, Digest.isText oid = true ∧ ∀ place entry,
        session.files.entryOf (store.pathOf oid) = .ok (place, entry) →
          entry.isDirectory = false := by
  have accords : Accords session
      (passes (objectsOnly dryRun jobs) source (store.objectsPass source jobs) session)
      (store.judgements session.files pointers) := accords_objectsOnly sequential offers avoids
  rw [passed] at accords
  have fine := failure?_eq_none_iff.mp (outcome_eq_ok.mp accords.outcome.symm)
  have corrupt (oid : Bytes) : oid ∈ reached.report.corrupt ↔
      ∃ finding ∈ findings (store.judgements session.files pointers),
        finding.isObjectFinding = true ∧ oid = finding.oid := by
    rw [show reached.report = _ from accords.report, Report.mem_corrupt_foldl_add, consistent,
      fresh]
    simp
  refine ⟨accords.observes,
    ⟨valid, fun pointer member fresh => ?_, fun pointer member place entry found => ?_⟩,
    fun oid member => ?_⟩
  · obtain ⟨found, judged⟩ := fine _ (List.mem_map_of_mem member)
    cases found with
    | none => exact judged
    | some finding =>
        have told : finding ∈ findings (store.judgements session.files pointers) := by
          rw [findings_of_no_failure (outcome_eq_ok.mp accords.outcome.symm), List.mem_flatMap]
          refine ⟨_, List.mem_map_of_mem member, ?_⟩
          rw [judged]
          simp [findings]
        exact absurd ((corrupt _).mpr ⟨finding, told, (finding_of_judge judged).1,
          (oid_of_judge (valid pointer member) judged).symm⟩) fresh
  · exact avoids pointer _ place entry (List.mem_map_of_mem member)
      (by rw [objectPath, if_pos (valid pointer member)]) found
  · obtain ⟨finding, told, -, rfl⟩ := (corrupt oid).mp member
    obtain ⟨pointer, among, judged⟩ := List.mem_map.mp (mem_of_mem_findings told)
    have isValid := valid pointer among
    rw [oid_of_judge isValid judged]
    exact ⟨isValid, fun place entry found => noDirectory_of_judge isValid judged found⟩

/-- The lock is in no way. -/
theorem keepsWays_locked (made : (session.files.perform (store.taking session)).2 = .ok ()) :
    session.files.KeepsWays (store.locked session).files := by
  obtain ⟨event, written⟩ : ∃ event, (store.locked session).files = session.journal.writeAll
      (session.files.perform (store.taking session)).1 [event] := ⟨(_, _), rfl⟩
  obtain ⟨above, name, -, -, vacant, -, shape⟩ := makeLink_eq_ok (settle_eq_ok made)
  rw [written, show (session.files.perform (store.taking session)).1 = _ from shape]
  exact ((FileTree.KeepsWays.refl _).put_vacant vacant _).trans
    (session.journal.keepsWays_writeAll _ _)

/-- The lock is not where objects are. -/
theorem sameShelves_locked {above : Place} {left : Nat} (way : store.Way session.files above left)
    (whole : 0 ∉ store.root) (made : (session.files.perform (store.taking session)).2 = .ok ()) :
    SameShelves session.journal above session.files (store.locked session).files ∧
      (session.files.IsTree → (store.locked session).files.IsTree) := by
  obtain ⟨-, directory, vacant, shape⟩ := (way.makeLink_lockPath_iff whole).mp (settle_eq_ok made)
  obtain ⟨event, written⟩ : ∃ event, (store.locked session).files = session.journal.writeAll
      (session.files.perform (store.taking session)).1 [event] := ⟨(_, _), rfl⟩
  rw [written, show (session.files.perform (store.taking session)).1 = _ from shape]
  refine ⟨?_, fun isTree => ?_⟩
  · refine SameShelves.trans ?_ (.writeAll session.journal above _ _)
    exact .of_elsewhere lockName_notMem_shelves fun place apart => get?_put_of_ne _ _ apart
  · exact session.journal.isTree_write (isTree_put_vacant isTree vacant directory rfl) _ _

/-- A lock that is still there is erased when it is given back. -/
theorem files_release {done : Session} {above : Place} {left : Nat}
    (way : store.Way session.files above left) (whole : 0 ∉ store.root)
    (made : (session.files.perform (store.taking session)).2 = .ok ())
    (ways : (store.locked session).files.KeepsWays done.files) :
    session.files.get? (above ++ [lockName]) = none ∧
      (release store.lockPath done).2.journal = done.journal ∧
      (release store.lockPath done).2.files = done.files.erase (above ++ [lockName]) := by
  obtain ⟨⟨-, fits⟩, -, vacant, shape⟩ :=
    (way.makeLink_lockPath_iff whole).mp (settle_eq_ok made)
  have linked : (store.locked session).files.get? (above ++ [lockName]) =
      some (.link (Decimal.ofNat session.pid).beforeNul) := by
    obtain ⟨event, written⟩ : ∃ event, (store.locked session).files = session.journal.writeAll
        (session.files.perform (store.taking session)).1 [event] := ⟨(_, _), rfl⟩
    refine (written ▸ session.journal.keepsWays_writeAll _ [event]).link _ _ ?_
    rw [show (session.files.perform (store.taking session)).1 = _ from shape,
      get?_put_vacant _ vacant, if_pos rfl]
  have removed := (way.keepsWays ((keepsWays_locked made).trans ways)).remove_lockPath
    whole fits (ways.link _ _ linked)
  have performed : done.files.perform (.remove store.lockPath) =
      (done.files.erase (above ++ [lockName]), .ok ()) := by
    rw [FileTree.perform, removed]
    rfl
  rw [release_of_removed (congrArg Prod.snd performed)]
  exact ⟨vacant, rfl, congrArg Prod.fst performed⟩

/-- The files in which a check of a store that is there makes its passes. -/
theorem exists_way_entered (options : CheckOptions) (whole : 0 ∉ store.root)
    (isTree : session.files.IsTree) (linkFree : store.LinkFree session.files)
    (stands : store.Stands session.files)
    (enters : store.entered options session = renewed options session ∨
      (session.files.perform (store.taking session)).2 = .ok () ∧
        store.entered options session = renewed options (store.locked session)) :
    ∃ above left, store.Way session.files above left ∧
      session.files.KeepsWays (store.entered options session).files ∧
      Linkless (store.entered options session).files above ∧
      (store.entered options session).files.IsTree := by
  obtain ⟨above, left, way⟩ := exists_way whole stands
  obtain ⟨passed, leads⟩ := way.leads
  have linkless := linkFree passed above leads
  refine ⟨above, left, way, ?_⟩
  rcases enters with unlocked | ⟨made, locked⟩
  · rw [unlocked]
    exact ⟨.refl _, linkless, isTree⟩
  · rw [locked]
    obtain ⟨same, grows⟩ := sameShelves_locked way whole made
    exact ⟨keepsWays_locked made, same.linkless linkless, grows isTree⟩

private theorem conclude_of_nothing {options : CheckOptions} {reached done : Session}
    {verdict : Verdict} (nothing : reached.report.corrupt = [])
    (concluded : store.conclude options reached = (.ok verdict, done)) :
    done.journal = reached.journal ∧ done.files = reached.files := by
  cases fine : reached.report.isOk with
  | true =>
      rw [store.conclude_of_isOk options fine] at concluded
      cases concluded
      exact ⟨rfl, rfl⟩
  | false =>
      rw [store.conclude_of_idle options fine (by simp [nothing])] at concluded
      cases concluded
      exact ⟨rfl, rfl⟩

/-- However a check concludes that comes to a verdict, it leaves the store repaired. -/
theorem repaired_of_conclude {options : CheckOptions} {begun reached done : Session}
    {verdict : Verdict} {above : Place} {left : Nat} (wanted : options.dryRun = false)
    (whole : 0 ∉ store.root) (way : store.Way begun.files above left)
    (isTree : begun.files.IsTree) (linkless : Linkless begun.files above)
    (stands : store.Stands begun.files)
    (observes : (renewed options begun).Observes reached)
    (readable : ∀ oid ∈ reached.report.corrupt, Digest.isText oid = true ∧ ∀ place entry,
      begun.files.entryOf (store.pathOf oid) = .ok (place, entry) → entry.isDirectory = false)
    (concluded : store.conclude options reached = (.ok verdict, done)) :
    done.journal = begun.journal ∧ begun.files.KeepsWays done.files ∧
      store.Repaired begun.journal begun.files done.files above left reached.report.corrupt := by
  obtain ⟨events, files⟩ : ∃ events, reached.files = begun.journal.writeAll begun.files events :=
    observes.files
  have journal : reached.journal = begun.journal := observes.journal
  by_cases nothing : reached.report.corrupt = []
  · obtain ⟨sameJournal, sameFiles⟩ := conclude_of_nothing nothing concluded
    rw [sameJournal, sameFiles, files, nothing]
    exact ⟨journal, begun.journal.keepsWays_writeAll _ _, (Repaired.start _ way).writeAll events⟩
  have fine : reached.report.isOk = false := by
    rw [Bool.eq_false_iff]
    intro isOk
    refine nothing ((corrupt_eq_nil_iff observes).mpr fun finding member => ?_)
    rw [List.isEmpty_iff.mp isOk] at member
    cases member
  rw [store.conclude_of_repair options fine (by simp [wanted, nothing])] at concluded
  obtain ⟨count, between, repaired, noted⟩ := bind_eq_ok concluded
  rw [← journal] at files
  have made := made_of_repair repaired
  rw [files, reached.journal.makeDirectories_writeAll begun.files events] at made
  have valid (oid : Bytes) (member : oid ∈ reached.report.corrupt) :=
    (readable oid member).1
  obtain ⟨-, stood, underway⟩ := stood_of_repair whole valid
    (site_of_made way isTree linkless) files repaired
  have movable := movable_of_readable way isTree linkless stands whole made valid underway stood
    fun oid member => (readable oid member).2
  obtain ⟨ways, moved⟩ :=
    repaired_of_underway way isTree linkless stands whole made underway movable
  have betweenJournal : between.journal = begun.journal := by
    have same := store.journal_repair reached
    rwa [repaired, journal] at same
  rw [journal] at moved
  obtain ⟨text, rfl⟩ : ∃ text, done = (note text between).2 := by
    cases noted
    exact ⟨_, rfl⟩
  have written : (note text between).2.files =
      begun.journal.writeAll between.files [(Journal.noteLevel, text ++ [Ascii.newline])] := by
    rw [← betweenJournal]
    rfl
  rw [written]
  exact ⟨betweenJournal, ways.trans (begun.journal.keepsWays_writeAll _ _), moved.writeAll _⟩

/-- The later session is of the same process. -/
def SameProcess (before after : Session) : Prop := after.pid = before.pid

instance : IsPreorder Session SameProcess where
  refl _ := rfl
  trans _ _ _ first second := second.trans first

private theorem pid_check (store : Store) (options : CheckOptions) (source : ScanSource)
    (session : Session) : (store.check options source session).2.pid = session.pid := by
  obtain ⟨schedule, same⟩ := store.check_eq_checkFollowing options source session
  have kept : Kept SameProcess fun _ => True := ⟨fun _ _ _ => rfl, fun _ _ _ => rfl⟩
  rw [same]
  exact kept.checkBy options source ⟨fun _ => trivial, trivial, trivial, fun _ _ _ => trivial⟩
    (fun _ _ => rfl) ((store.within_passesFollowing options source schedule).mono
      fun _ _ observes => observes.pid) session

/-- How a check that moved objects has left a store that was there: repaired, with the lock given
back. -/
structure Mended (store : Store) (pointers : List FoundPointer) (oids : List Bytes)
    (session later : Session) (tree : FileTree) (above : Place) (left : Nat) : Prop where
  way : store.Way session.files above left
  entered : store.Way tree above left
  linkless : Linkless tree above
  ways : session.files.KeepsWays later.files
  pid : later.pid = session.pid
  known : store.Judged later.journal tree oids pointers
  valid : ∀ oid ∈ oids, Digest.isText oid = true
  repaired : store.Repaired later.journal tree later.files above left oids
  lock : session.files.isDirectory store.root = true →
    (session.files.perform (store.taking session)).2 = .ok () ∧
      later.files.get? (above ++ [lockName]) = none

private theorem mended_of_check {after : Session} {verdict : Verdict} (sequential : jobs ≤ 1)
    (whole : 0 ∉ store.root) (valid : ∀ pointer ∈ pointers, Digest.isText pointer.oid = true)
    (isTree : session.files.IsTree) (linkFree : store.LinkFree session.files)
    (stands : store.Stands session.files)
    (offers : source.objects.Offers (pointers.map .pointer) session.signal)
    (avoids : store.AvoidsJournal (store.entered (objectsOnly false jobs) session)
      (pointers.map .pointer))
    (checked : store.check (objectsOnly false jobs) source session = (.ok verdict, after)) :
    ∃ above left, store.Mended pointers after.report.corrupt session after
      (store.entered (objectsOnly false jobs) session).files above left := by
  have pid : after.pid = session.pid := by
    have same := pid_check store (objectsOnly false jobs) source session
    rwa [checked] at same
  obtain ⟨reached, done, passed, concluded, corrupt, ends⟩ := course_of_check rfl checked
  obtain ⟨above, left, way, ways, linkless, isTreeEntered⟩ :=
    exists_way_entered (objectsOnly false jobs) whole isTree linkFree stands
      (ends.imp (fun unlocked => unlocked.2.1) fun locked => ⟨locked.2.1, locked.2.2.1⟩)
  rw [← store.signal_entered (objectsOnly false jobs) session] at offers
  obtain ⟨observes, known, readable⟩ :=
    judged_of_pass sequential valid offers avoids (Report.consistent_fresh _) rfl passed
  have entered := way.keepsWays ways
  obtain ⟨journal, kept, repaired⟩ := repaired_of_conclude rfl whole entered
    isTreeEntered linkless (ways.isDirectory stands) observes readable concluded
  have validMoved (oid : Bytes) (member : oid ∈ reached.report.corrupt) :=
    (readable oid member).1
  rw [← journal] at known repaired
  rw [corrupt]
  refine ⟨above, left, ?_⟩
  rcases ends with ⟨absent, -, rfl⟩ | ⟨-, made, locked, rfl⟩
  · exact ⟨way, entered, linkless, ways.trans kept, pid, known, validMoved, repaired,
      fun there => absurd (absent.symm.trans there) Bool.false_ne_true⟩
  · have keptLocked : (store.locked session).files.KeepsWays done.files := by
      rw [locked] at kept
      exact kept
    obtain ⟨vacant, sameJournal, erased⟩ := files_release way whole made keptLocked
    have waysErased := (ways.trans kept).erase vacant
    rw [← sameJournal] at known repaired
    rw [← erased] at waysErased
    refine ⟨way, entered, linkless, waysErased, pid, known, validMoved, ?_, fun _ => ⟨made, ?_⟩⟩
    · refine repaired.next (way.keepsWays waysErased) <|
        .of_elsewhere lockName_notMem_shelves fun place apart => ?_
      rw [erased]
      exact get?_erase_of_ne _ apart
    · rw [erased]
      exact get?_erase_self _ (by simp)

namespace Mended

variable {oids : List Bytes} {after : Session} {tree : FileTree} {above : Place} {left : Nat}

private theorem spares (mended : store.Mended pointers oids session after tree above left)
    (spares : after.Spares later) :
    store.Mended pointers oids session later tree above left := by
  obtain ⟨events, written⟩ := spares.files
  refine { mended with
    ways := ?ways, pid := spares.pid.trans mended.pid, known := ?known, repaired := ?repaired
    lock := fun there => ⟨(mended.lock there).1, ?vacant⟩ }
  case ways =>
    rw [written]
    exact mended.ways.trans (after.journal.keepsWays_writeAll _ _)
  case known =>
    rw [spares.journal]
    exact mended.known
  case repaired =>
    rw [spares.journal, written]
    exact mended.repaired.writeAll events
  case vacant =>
    rw [written]
    exact after.journal.get?_writeAll_eq_none.mpr (mended.lock there).2

private theorem rereads (mended : store.Mended pointers oids session later tree above left)
    (whole : 0 ∉ store.root) : store.Rereads oids pointers later :=
  .of_repaired mended.known whole mended.entered mended.linkless mended.repaired

/-- The lock can be taken again if there is a directory to take it in. -/
theorem taken (mended : store.Mended pointers oids session later tree above left)
    (whole : 0 ∉ store.root) (stands : store.Stands session.files)
    (again : later.files.isDirectory store.root = true) :
    (later.files.perform (store.taking later)).2 = .ok () := by
  rcases stands_iff.mp stands with there | ⟨nowhere, -⟩
  · obtain ⟨made, vacant⟩ := mended.lock there
    obtain ⟨fits, directory, -, -⟩ :=
      (mended.way.makeLink_lockPath_iff whole).mp (settle_eq_ok made)
    have remade := ((mended.way.keepsWays mended.ways).makeLink_lockPath_iff whole).mpr
      ⟨fits, mended.ways.directory _ _ directory rfl, vacant, rfl⟩
    rw [taking, mended.pid, FileTree.perform, remade]
    rfl
  · rw [nowhere, isDirectory_nil] at again
    cases again

end Mended

/-- Where the root of a store that is there is cut short, all paths lead to its directory, and no
object can be judged. -/
theorem nothing_of_cut {after : Session} {verdict : Verdict} (sequential : jobs ≤ 1)
    (cut : 0 ∈ store.root) (valid : ∀ pointer ∈ pointers, Digest.isText pointer.oid = true)
    (stands : store.Stands session.files)
    (offers : source.objects.Offers (pointers.map .pointer) session.signal)
    (avoids : store.AvoidsJournal (store.entered (objectsOnly false jobs) session)
      (pointers.map .pointer))
    (checked : store.check (objectsOnly false jobs) source session = (.ok verdict, after)) :
    pointers = [] := by
  obtain ⟨reached, _, passed, -, -, ends⟩ := course_of_check rfl checked
  have ways : session.files.KeepsWays (store.entered (objectsOnly false jobs) session).files := by
    rcases ends with ⟨-, entered, -⟩ | ⟨-, made, entered, -⟩
    · rw [entered]
      exact .refl _
    · rw [entered]
      exact keepsWays_locked made
  have there : session.files.isDirectory store.root = true := by
    rcases stands_iff.mp stands with there | ⟨nowhere, -⟩
    · exact there
    · rw [nowhere] at cut
      cases cut
  have still := ways.isDirectory there
  rw [FileTree.isDirectory] at still
  split at still
  · rename_i place entry found
    rw [← store.signal_entered (objectsOnly false jobs) session] at offers
    obtain ⟨-, known, readable⟩ :=
      judged_of_pass sequential valid offers avoids (Report.consistent_fresh _) rfl passed
    refine List.eq_nil_iff_forall_not_mem.mpr fun pointer member => ?_
    rw [← entryOf_of_cut cut pointer.oid] at found
    have noDirectory : entry.isDirectory = false := by
      by_cases moved : pointer.oid ∈ reached.report.corrupt
      · exact (readable _ moved).2 place entry found
      · exact noDirectory_of_judge (valid pointer member) (known.fine pointer member moved) found
    cases still.symm.trans noDirectory
  · cases still

/-- A store without a directory of which nothing was moved is as it was. -/
theorem rereads_of_absent {after : Session} {verdict : Verdict} (sequential : jobs ≤ 1)
    (valid : ∀ pointer ∈ pointers, Digest.isText pointer.oid = true)
    (absent : ¬ store.Stands session.files) (nothing : after.report.corrupt = [])
    (offers : source.objects.Offers (pointers.map .pointer) session.signal)
    (avoids : store.AvoidsJournal (store.entered (objectsOnly false jobs) session)
      (pointers.map .pointer))
    (checked : store.check (objectsOnly false jobs) source session = (.ok verdict, after))
    (spares : after.Spares later) : store.Rereads [] pointers later := by
  obtain ⟨reached, done, passed, concluded, corrupt, ends⟩ := course_of_check rfl checked
  rcases ends with ⟨-, entered, rfl⟩ | ⟨there, -⟩
  · rw [entered] at passed avoids
    have offersRenewed : source.objects.Offers (pointers.map .pointer)
      (renewed (objectsOnly false jobs) session).signal := offers
    obtain ⟨observes, known, -⟩ :=
      judged_of_pass sequential valid offersRenewed avoids (Report.consistent_fresh _) rfl passed
    rw [← corrupt, nothing] at known
    obtain ⟨journal, files⟩ := conclude_of_nothing (corrupt ▸ nothing) concluded
    refine .of_sees known avoids ((spares.journal.trans journal).trans observes.journal) ?_
    obtain ⟨events, written⟩ := spares.files
    rw [journal, files] at written
    exact observes.files.trans observes.journal ⟨events, written⟩
  · exact absurd (stands_iff.mpr (.inl there)) absent

private theorem check_repairs_again {before : Session} {tree : FileTree} {above : Place}
    {left : Nat}
    {oids : List Bytes} {first : FoundPointer} {rest : List FoundPointer} (sequential : jobs ≤ 1)
    (whole : 0 ∉ store.root) (stands : store.Stands before.files)
    (mended : store.Mended pointers oids before session tree above left)
    (offers : source.objects.Offers (pointers.map .pointer) session.signal)
    (gone : missing oids pointers = first :: rest) :
    let result := store.check (objectsOnly false jobs) source session
    result.1 = .error (store.moveFailure first.oid .noEntry) ∧ session.Sees result.2.files := by
  intro result
  have course : result = store.checkBy (objectsOnly false jobs) source
      (store.objectsPass source jobs) session := congrFun (store.check_eq_checkBy _ source) session
  rw [checkBy, show (objectsOnly false jobs).dryRun = false from rfl, if_neg Bool.false_ne_true,
    holdingLock_apply] at course
  have valid := mended.valid
  cases there : session.files.isDirectory store.root with
  | false =>
      rw [store.lock_of_noDirectory there] at course
      rw [course]
      exact concludeAfter_again whole valid mended.repaired (mended.rereads whole) sequential offers
        gone
  | true =>
      have made := mended.taken whole stands there
      have way := mended.repaired.way.keepsWays (keepsWays_locked made)
      obtain ⟨same, -⟩ := sameShelves_locked mended.repaired.way whole made
      have repairedLocked : store.Repaired (store.locked session).journal tree
          (store.locked session).files above left oids :=
        mended.repaired.next way same
      obtain ⟨failed, sees⟩ := concludeAfter_again whole valid repairedLocked
        (.of_repaired mended.known whole mended.entered mended.linkless repairedLocked) sequential
        offers gone
      rw [store.lock_of_made there made] at course
      rw [course]
      exact ⟨failed, (store.release_of_sees made sees).2.1⟩

/-- **Checking a repaired store again.** Let a check of the objects of pointers come to a verdict,
of a store that was there, or without anything to be moved, and in which no link stands where
objects are. Then a dry check of the same pointers, whenever nothing but records came in between,
leaves the files alone and finds just that the objects that were moved are missing, for each pointer
to them that is not one to the empty content, in order; and if there are any, a check that repairs
fails at the first of them, as it is not there to be moved, and leaves the files alone too. -/
theorem check_again (store : Store) {source : ScanSource} {pointers : List FoundPointer}
    {jobs : Int} (sequential : jobs ≤ 1)
    (valid : ∀ pointer ∈ pointers, Digest.isText pointer.oid = true)
    {session after : Session} {verdict : Verdict} (isTree : session.files.IsTree)
    (linkFree : store.LinkFree session.files)
    (offers : source.objects.Offers (pointers.map .pointer) session.signal)
    (avoids : store.AvoidsJournal (store.entered (objectsOnly false jobs) session)
      (pointers.map .pointer))
    (checked : store.check (objectsOnly false jobs) source session = (.ok verdict, after))
    (stands : after.report.corrupt ≠ [] → store.Stands session.files) :
    let gone := missing after.report.corrupt pointers
    ∀ later, after.Spares later →
      source.objects.Offers (pointers.map .pointer) later.signal →
      FindsMissing gone later (store.check (objectsOnly true jobs) source later) ∧
      ∀ first rest, gone = first :: rest →
        let result := store.check (objectsOnly false jobs) source later
        result.1 = .error (store.moveFailure first.oid .noEntry) ∧ later.Sees result.2.files ∧
          ((∀ place, later.journal.sink ≠ .file place) → result.2.files = later.files) := by
  intro gone later spares offersLater
  by_cases usable : store.Stands session.files ∧ 0 ∉ store.root
  · obtain ⟨there, whole⟩ := usable
    obtain ⟨above, left, mended⟩ :=
      mended_of_check sequential whole valid isTree linkFree there offers avoids checked
    have still := mended.spares spares
    refine ⟨check_dry_again (still.rereads whole) sequential offersLater,
      fun first rest some => ?_⟩
    obtain ⟨failed, sees⟩ :=
      check_repairs_again sequential whole there still offersLater some
    exact ⟨failed, sees, sees.eq_of_noFile⟩
  · -- Either no object could be looked at, or nothing was moved.
    obtain ⟨none, rereads⟩ : gone = [] ∧ store.Rereads after.report.corrupt pointers later := by
      by_cases there : store.Stands session.files
      · have cut : 0 ∈ store.root := not_not.mp fun whole => usable ⟨there, whole⟩
        obtain rfl := nothing_of_cut sequential cut valid there offers avoids checked
        exact ⟨rfl, fun _ member => absurd member List.not_mem_nil,
          fun _ _ _ _ member => absurd member List.not_mem_nil⟩
      · have nothing : after.report.corrupt = [] := not_not.mp fun some => there (stands some)
        have rereads :=
          rereads_of_absent sequential valid there nothing offers avoids checked spares
        rw [← nothing] at rereads
        exact ⟨by simp [gone, missing, nothing], rereads⟩
    refine ⟨check_dry_again rereads sequential offersLater, fun first rest some => ?_⟩
    cases none.symm.trans some

/-- A pointer of a name to an object. -/
def pointing (name oid : Bytes) (size : Int64) : FoundPointer := { name, oid, size }

/-- A corrupt object under two names, one of them empty, and one that was not there. -/
theorem check_again_of_two_objects :
    let store : Store := ⟨ascii "s"⟩
    let object := List.replicate 64 Ascii.zero
    let other := List.replicate 64 (49 : UInt8)
    let pointers := [pointing (ascii "a") object 5, pointing (ascii "b") object 0,
      pointing (ascii "c") other 0, pointing (ascii "d") object 1]
    let source : ScanSource := ⟨[.listed (pointers.map .pointer) none], []⟩
    let session : Session := { files := { entries := shelved [(object, .file [7])] } }
    let after := (store.check (objectsOnly false 1) source session).2
    let dry := store.check (objectsOnly true 1) source after
    let again := store.check (objectsOnly false 1) source after
    after.report.corrupt = [object] ∧ dry.1 = .ok .corrupt ∧ dry.2.files = after.files ∧
      dry.2.report.findings = [.openError (ascii "a") object Errno.noEntry.text,
        .openError (ascii "d") object Errno.noEntry.text] ∧
      again.1 = .error (store.moveFailure object .noEntry) ∧ again.2.files = after.files := by
  intro store object other pointers source session after dry again
  have outcome : (store.check (objectsOnly false 1) source session).1 = .ok .corrupt := by
    decide +kernel
  have moved : after.report.corrupt = [object] := by decide +kernel
  have noFile (place : Place) : session.journal.sink ≠ .file place := nofun
  have entered : (store.entered (objectsOnly false 1) session).journal = session.journal :=
    store.journal_lock session
  have noFileAfter (place : Place) : after.journal.sink ≠ .file place := by
    rw [show after.journal = session.journal by decide +kernel]
    exact noFile place
  have checked : store.check (objectsOnly false 1) source session = (.ok .corrupt, after) :=
    Prod.ext outcome rfl
  have offers : source.objects.Offers (pointers.map .pointer) session.signal :=
    Feed.offers_listed _ _
  obtain ⟨read, fails⟩ := check_again store (Int.le_refl 1) (by decide)
    (isTree_of_entries (by decide +kernel)) (linkFree_of_entries (by decide +kernel)) offers
    (avoidsJournal_of_noFile (entered ▸ noFile) _) checked
    (fun _ => stands_iff.mpr (.inl (by decide +kernel))) after (refl after)
    (Feed.offers_listed _ _)
  have gone : missing after.report.corrupt pointers =
      [pointing (ascii "a") object 5, pointing (ascii "d") object 1] := by
    rw [moved]
    decide
  have reads : FindsMissing [pointing (ascii "a") object 5, pointing (ascii "d") object 1]
      after dry := gone ▸ read
  obtain ⟨stopped, -, sameAgain⟩ := fails _ _ gone
  obtain ⟨verdict, ends, -, status⟩ := reads.verdict
  have found : verdict = .corrupt := by
    cases verdict with
    | clean => cases status.mpr (List.cons_ne_nil _ _)
    | corrupt => rfl
  exact ⟨moved, found ▸ ends, reads.files noFileAfter, reads.findings, stopped,
    sameAgain noFileAfter⟩

/-- How a store that was repaired can be another one when it is read again. -/
theorem check_again_differs :
    let object := List.replicate 64 Ascii.zero
    let other := List.replicate 64 (97 : UInt8)
    let source (pointers : List FoundPointer) : ScanSource :=
      ⟨[.listed (pointers.map .pointer) none], []⟩
    let first (store : Store) (pointers : List FoundPointer) (files : List (Place × Entry)) :=
      store.check (objectsOnly false 1) (source pointers) { files := { entries := files } }
    let again (dryRun : Bool) (store : Store) (pointers : List FoundPointer)
        (files : List (Place × Entry)) :=
      store.check (objectsOnly dryRun 1) (source pointers) (first store pointers files).2
    -- The dry check writes records to an open journal file.
    (let session : Session :=
        { files := { entries := ([ascii "log"], .file []) :: shelved [(object, .file [7])] }
          journal := { level := Journal.traceLevel, sink := .file [ascii "log"] } }
      let store : Store := ⟨ascii "s"⟩
      let pointers := [pointing (ascii "y") object 5]
      let repaired := store.check (objectsOnly false 1) (source pointers) session
      let dry := store.check (objectsOnly true 1) (source pointers) repaired.2
      repaired.1 = .ok .corrupt ∧ dry.1 = .ok .corrupt ∧
        dry.2.files.get? [ascii "log"] ≠ repaired.2.files.get? [ascii "log"]) ∧
    -- An object that was the right one is the journal file, in which the first check left records.
    (let empty := Digest.nameOf []
      let session : Session :=
        { files := { entries := shelved [(object, .file [7]), (empty, .file [])] }
          journal := { level := Journal.noteLevel, sink := .file (objectPlace [ascii "s"] empty) } }
      let store : Store := ⟨ascii "s"⟩
      let pointers := [pointing (ascii "x") empty 0, pointing (ascii "y") object 5]
      let repaired := store.check (objectsOnly false 1) (source pointers) session
      repaired.1 = .ok .corrupt ∧ repaired.2.report.corrupt = [object] ∧
        (store.check (objectsOnly true 1) (source pointers) repaired.2).2.report.findings =
          [.corruptObject (ascii "x") empty,
            .openError (ascii "y") object Errno.noEntry.text]) ∧
    -- The repair makes a directory that the root leads through, and there is a store beyond it.
    (let store : Store := ⟨ascii "a/../s"⟩
      let pointers := [pointing (ascii "x") other 5, pointing (ascii "y") object 0]
      let files := shelved [(object, .file [7]), (other, .file [])]
      (first store pointers files).1 = .ok .corrupt ∧
      (again true store pointers files).2.report.findings =
        [.openError (ascii "x") other Errno.noEntry.text, .corruptObject (ascii "y") object]) ∧
    -- The root leads through the place of the object, which the repair makes a directory.
    (let store : Store := ⟨ascii "s/objects/aa/aa/" ++ other ++ ascii "/../../../.."⟩
      let pointers := [pointing (ascii "x") other 5]
      let files := [([ascii "s"], .directory), ([ascii "s", ascii "objects"], .directory),
        ([ascii "s", ascii "objects", ascii "aa"], .directory),
        ([ascii "s", ascii "objects", ascii "aa", ascii "aa"], .directory)]
      (first store pointers files).1 = .ok .corrupt ∧
      (again false store pointers files).1 = .ok .corrupt) ∧
    -- The quarantine is a link to where the object is.
    (let store : Store := ⟨ascii "s"⟩
      let pointers := [pointing (ascii "y") object 5]
      let files := shelved [(object, .file [7])] ++
        [([ascii "s", ascii "bad"], .link (ascii "objects/00/00"))]
      (first store pointers files).1 = .ok .corrupt ∧
      (again true store pointers files).2.report.findings = [.corruptObject (ascii "y") object] ∧
      (again false store pointers files).1 = .ok .corrupt) ∧
    -- The objects are behind a link that leads through the quarantine, which the repair makes.
    (let store : Store := ⟨ascii "t"⟩
      let pointers := [pointing (ascii "x") other 5, pointing (ascii "y") object 0]
      let files := [([ascii "t"], .directory),
        ([ascii "t", ascii "objects"], .link (ascii "bad/../../s/objects"))] ++
          shelved [(object, .file [7]), (other, .file [])]
      (first store pointers files).1 = .ok .corrupt ∧
      (again true store pointers files).2.report.findings =
        [.openError (ascii "x") other Errno.noEntry.text, .corruptObject (ascii "y") object]) := by
  refine ⟨?_, ?_, ?_, ?_, ?_, ?_⟩
  · decide +kernel
  · decide +kernel
  · decide +kernel
  · decide +kernel
  · decide +kernel
  · decide +kernel

end Store

end StoreAudit
