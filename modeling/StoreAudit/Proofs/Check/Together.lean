import StoreAudit.Proofs.Check.Frame
import StoreAudit.Proofs.Check.Workers
import StoreAudit.Proofs.Store.RepairOrder

/-!
# Checks with workers and without

A check without workers that ends normally leaves the same files as one with workers, which ends
with the same verdict, in whatever order the workers took their turns (`Store.check_together`).
-/

namespace StoreAudit.Store

open Audit Judgement FileTree

variable {store : Store} {source : ScanSource} {options : CheckOptions} {schedule : List PoolThread}
  {session : Session}

/-- The judgements of the pointers, if they are wanted. -/
def pointerJudgements (options : CheckOptions) (source : ScanSource) (session : Session) :
    List Judgement :=
  if options.wantsPointers then
    (source.pointers.contents session).judgements fun _ item => .ok item.problem?
  else []

/-- The pass over the pointers, if it is wanted. -/
def wantedPointers (options : CheckOptions) (source : ScanSource) : Audit Unit := do
  if options.wantsPointers then pointersPass source

/-- The pass over the pointers, where it is wanted, does as judged. -/
theorem wantedPointers_accords {reference : Session} (alike : session.Alike reference) :
    Accords session (wantedPointers options source session)
      (pointerJudgements options source reference) := by
  unfold wantedPointers pointerJudgements
  cases options.wantsPointers with
  | true => exact pointersPass_accords source alike
  | false => exact .pure session

/-- The pass over the objects comes first, where it is wanted. -/
theorem passes_eq (objects : Audit Unit) :
    passes options source objects =
      if options.wantsObjects then objects >>= fun _ => wantedPointers options source
      else wantedPointers options source := by
  unfold passes wantedPointers
  cases options.wantsObjects <;> rfl

/-- The objects that are reported have names. -/
def Named (findings : List Finding) : Prop :=
  ∀ finding ∈ findings, finding.isObjectFinding = true → Digest.isText finding.oid = true

private theorem named_objectJudgements (session : Session) :
    Named (findings (store.objectJudgements source session)) := by
  intro finding member _
  rcases List.mem_append.mp (mem_of_mem_findings member) with judged | failed
  · obtain ⟨item, -, same⟩ := List.mem_map.mp judged
    exact (finding_of_judge same).2
  · obtain ⟨failure, -, impossible⟩ := List.mem_map.mp failed
    cases impossible

private theorem named_pointerJudgements (session : Session) :
    Named (findings (pointerJudgements options source session)) := by
  intro finding member isObject
  have told := mem_of_mem_findings member
  unfold pointerJudgements at told
  split at told
  · rcases List.mem_append.mp told with found | failed
    · obtain ⟨index, inside, same⟩ := List.mem_mapIdx.mp found
      generalize (source.pointers.contents session).items[index] = item at same
      have problem : item.problem? = some finding := Except.ok.inj same
      cases item with
      | misplaced path treeOid =>
          cases problem
          cases isObject
      | pointer pointer =>
          dsimp only [ScanItem.problem?] at problem
          split at problem
          · cases problem
          · cases problem
            cases isObject
    · obtain ⟨failure, -, impossible⟩ := List.mem_map.mp failed
      cases impossible
  · cases told

/-- If the passes without workers come to their end, so do those with workers, and they have found
the same. -/
theorem passes_together {reached : Session} (several : 2 ≤ options.jobs)
    (avoids : store.AvoidsJournal session (source.objects.contents session).items)
    (finishes : store.Finishes source schedule options.jobs session)
    (passed : passes options source (store.objectsPass source 1) session = (.ok (), reached)) :
    ∃ judgements others, Accords session (.ok (), reached) judgements ∧
      Accords session (store.passesFollowing options source schedule session) others ∧
      failure? others = none ∧ (findings others).Perm (findings judgements) ∧
      Named (findings judgements) := by
  unfold passesFollowing
  rw [passes_eq] at passed ⊢
  cases wanted : options.wantsObjects with
  | false =>
      simp only [wanted, Bool.false_eq_true, if_false] at passed ⊢
      have accords : Accords session (wantedPointers options source session)
        (pointerJudgements options source session) := wantedPointers_accords (.refl session)
      rw [passed] at accords ⊢
      exact ⟨_, _, accords, accords, outcome_eq_ok.mp accords.outcome.symm, .refl _,
        named_pointerJudgements session⟩
  | true =>
      simp only [wanted, if_true] at passed ⊢
      obtain ⟨accords, alike⟩ := objectsPass_accords_judgements avoids
      obtain ⟨_, middle, first, second⟩ := bind_eq_ok passed
      have fine : failure? (store.objectJudgements source session) = none := by
        rw [← outcome_eq_ok, ← accords.outcome, first]
      rcases objectsPassFollowing_cases several finishes with
        ⟨failure, -, causes⟩ | ⟨-, alikeOther, -, reported, accordsOther, perm⟩
      · exact absurd fine causes.failure?
      have pointers {after : Session}
          (alike : after.Alike (source.objects.contents session).after) :
          Accords after (wantedPointers options source after)
            (pointerJudgements options source (source.objects.contents session).after) :=
        wantedPointers_accords alike
      have together : Accords session
          ((store.objectsPassFollowing source schedule options.jobs >>= fun _ =>
            wantedPointers options source) session) _ :=
        accordsOther.bind fun _ => pointers alikeOther
      have alone : Accords session
          ((store.objectsPass source 1 >>= fun _ => wantedPointers options source) session) _ :=
        accords.bind fun _ => pointers (alike fine)
      rw [passed] at alone
      obtain ⟨-, noFailure⟩ := failure?_append_eq_none.mp (outcome_eq_ok.mp alone.outcome.symm)
      obtain ⟨told, toldAll⟩ := findings_map_some reported
      have sameFindings := (append_of_no_failure fine
        (pointerJudgements options source (source.objects.contents session).after)).1
      refine ⟨_, _, alone, together, failure?_append_eq_none.mpr ⟨toldAll, noFailure⟩, ?_, ?_⟩
      · rw [sameFindings, (append_of_no_failure toldAll _).1, told]
        exact (perm avoids).append_right _
      · rw [sameFindings]
        intro finding member
        rcases List.mem_append.mp member with ofObject | ofPointer
        · exact named_objectJudgements session finding ofObject
        · exact named_pointerJudgements _ finding ofPointer

/-- The later session has the same journal. -/
def SameJournal (before after : Session) : Prop := after.journal = before.journal

instance : IsPreorder Session SameJournal where
  refl _ := rfl
  trans _ _ _ first second := second.trans first

/-- No change and no record closes the journal or opens another. -/
theorem kept_sameJournal : Kept SameJournal fun _ => True := ⟨fun _ _ _ => rfl, fun _ _ _ => rfl⟩

/-- A repair leaves the journal as it was opened. -/
theorem journal_repair (store : Store) (session : Session) :
    (store.repair session).2.journal = session.journal := by
  rw [repair_apply]
  have within : Within SameJournal (store.moveAll session.report.corrupt) :=
    kept_sameJournal.moveAll trivial (fun _ _ _ => trivial) _
  exact within (store.announced session)

/-- Where the same objects are to be moved, the moves end in the same way. -/
theorem repairAndNote_together {reached other after : Session} {verdict : Verdict}
    (observes : session.Observes reached) (otherObserves : session.Observes other)
    (corrupt : other.report.corrupt.Perm reached.report.corrupt)
    (nodup : reached.report.corrupt.Nodup)
    (valid : ∀ oid ∈ reached.report.corrupt, Digest.isText oid = true)
    (reorderable : 0 ∉ store.root →
      store.Reorderable session.journal session.files reached.report.corrupt)
    (concluded : store.repairAndNote reached = (.ok verdict, after)) :
    ∃ last, store.repairAndNote other = (.ok verdict, last) ∧
      after.journal = session.journal ∧ last.journal = session.journal ∧
      session.journal.Agree after.files last.files := by
  obtain ⟨events, files⟩ := observes.files
  obtain ⟨more, otherFiles⟩ := otherObserves.files
  obtain ⟨count, between, repaired, noted⟩ := bind_eq_ok concluded
  rw [← observes.journal] at reorderable files otherFiles
  obtain ⟨outcome, agree⟩ := repair_of_perm reorderable valid nodup
    (otherObserves.journal.trans observes.journal.symm) files otherFiles corrupt repaired
  have journal := store.journal_repair reached
  have otherJournal := store.journal_repair other
  rw [repaired, observes.journal] at journal
  rw [otherObserves.journal] at otherJournal
  rw [observes.journal] at agree
  have again : store.repair other = (.ok count, (store.repair other).2) := Prod.ext outcome rfl
  cases noted
  rw [repairAndNote, bind_apply_of_ok again]
  exact ⟨_, rfl, journal, otherJournal, agree.log journal otherJournal _ _⟩

/-- Where the same was found, the conclusion is the same. -/
theorem conclude_together {reached other after : Session} {verdict : Verdict}
    {inOrder reported : List Finding} (observes : session.Observes reached)
    (otherObserves : session.Observes other)
    (report : reached.report = inOrder.foldl Report.add { dryRun := options.dryRun })
    (otherReport : other.report = reported.foldl Report.add { dryRun := options.dryRun })
    (perm : reported.Perm inOrder) (named : Named inOrder)
    (reorderable : options.dryRun = false → reached.report.corrupt ≠ [] → 0 ∉ store.root →
      store.Reorderable session.journal session.files reached.report.corrupt)
    (concluded : store.conclude options reached = (.ok verdict, after)) :
    ∃ last, store.conclude options other = (.ok verdict, last) ∧
      after.journal = session.journal ∧ last.journal = session.journal ∧
      session.journal.Agree after.files last.files := by
  have nodup : reached.report.corrupt.Nodup := by
    rw [report]
    exact Report.nodup_corrupt_foldl_add (Report.consistent_fresh _) List.nodup_nil _
  have corrupt : other.report.corrupt.Perm reached.report.corrupt := by
    rw [report, otherReport]
    exact Report.corrupt_foldl_add_perm (Report.consistent_fresh _) List.nodup_nil perm
  have sameOk : other.report.isOk = reached.report.isOk := by
    rw [Report.isOk, Report.isOk, report, otherReport, Report.findings_foldl_add,
      Report.findings_foldl_add]
    exact perm.isEmpty_eq
  have valid : ∀ oid ∈ reached.report.corrupt, Digest.isText oid = true := by
    intro oid member
    rw [report, Report.mem_corrupt_foldl_add] at member
    rcases member with impossible | ⟨-, finding, among, isObject, rfl⟩
    · cases impossible
    · exact named finding among isObject
  have agree : session.journal.Agree reached.files other.files := by
    obtain ⟨events, files⟩ := observes.files
    obtain ⟨more, otherFiles⟩ := otherObserves.files
    rw [files, otherFiles]
    exact (Journal.Agree.writeAll _ _ _).symm.trans (.writeAll _ _ _)
  cases fine : reached.report.isOk with
  | true =>
      rw [store.conclude_of_isOk options fine] at concluded
      rw [store.conclude_of_isOk options (sameOk.trans fine)]
      cases concluded
      exact ⟨_, rfl, observes.journal, otherObserves.journal, agree⟩
  | false =>
      cases idle : options.dryRun || reached.report.corrupt.isEmpty with
      | true =>
          have otherIdle : (options.dryRun || other.report.corrupt.isEmpty) = true := by
            rw [corrupt.isEmpty_eq]
            exact idle
          rw [store.conclude_of_idle options fine idle] at concluded
          rw [store.conclude_of_idle options (sameOk.trans fine) otherIdle]
          cases concluded
          exact ⟨_, rfl, observes.journal, otherObserves.journal, agree⟩
      | false =>
          have otherRepairs : (options.dryRun || other.report.corrupt.isEmpty) = false := by
            rw [corrupt.isEmpty_eq]
            exact idle
          rw [store.conclude_of_repair options fine idle] at concluded
          rw [store.conclude_of_repair options (sameOk.trans fine) otherRepairs]
          obtain ⟨wanted, some⟩ := Bool.or_eq_false_iff.mp idle
          have nonempty : reached.report.corrupt ≠ [] := by
            intro empty
            rw [empty] at some
            cases some
          exact repairAndNote_together observes otherObserves corrupt nodup valid
            (reorderable wanted nonempty) concluded

/-- A conclusion adds no corrupt object. -/
theorem corrupt_conclude (store : Store) (options : CheckOptions) (session : Session) :
    (store.conclude options session).2.report.corrupt = session.report.corrupt := by
  cases fine : session.report.isOk with
  | true =>
      rw [store.conclude_of_isOk options fine]
      rfl
  | false =>
      cases idle : options.dryRun || session.report.corrupt.isEmpty with
      | true => rw [store.conclude_of_idle options fine idle]
      | false =>
          rw [store.conclude_of_repair options fine idle, (store.repairAndNote_keeps session).1,
            report_repair]
          rfl

private theorem concludeAfter_together {after : Session} {verdict : Verdict}
    (several : 2 ≤ options.jobs) (avoids : store.AvoidsJournal (renewed options session)
      (source.objects.contents (renewed options session)).items)
    (finishes : store.Finishes source schedule options.jobs (renewed options session))
    (reorderable : options.dryRun = false → after.report.corrupt ≠ [] → 0 ∉ store.root →
      store.Reorderable session.journal session.files after.report.corrupt)
    (concluded : store.concludeAfter options (passes options source (store.objectsPass source 1))
      session = (.ok verdict, after)) :
    ∃ last, store.concludeAfter options (store.passesFollowing options source schedule) session =
        (.ok verdict, last) ∧
      after.journal = session.journal ∧ last.journal = session.journal ∧
      session.journal.Agree after.files last.files := by
  rw [concludeAfter_apply] at concluded ⊢
  rcases passed : passes options source (store.objectsPass source 1) (renewed options session) with
    ⟨failure | _, reached⟩ <;> rw [passed] at concluded
  · cases concluded
  dsimp only at concluded
  have corrupt := store.corrupt_conclude options reached
  rw [concluded] at corrupt
  obtain ⟨judgements, others, alone, together, fine, perm, named⟩ :=
    passes_together several avoids finishes passed
  rw [together.eq_ok fine]
  rw [corrupt] at reorderable
  have ends := conclude_together alone.observes together.observes alone.report together.report perm
    named reorderable concluded
  exact ends

private theorem release_together {one two : Session} {journal : Journal}
    (agree : journal.Agree one.files two.files) (oneJournal : one.journal = journal)
    (twoJournal : two.journal = journal) (lockPath : Bytes) :
    journal.Agree (release lockPath one).2.files (release lockPath two).2.files := by
  obtain ⟨sameOutcome, removed⟩ := agree.remove lockPath
  rw [release_apply, release_apply, sameOutcome]
  cases (one.files.perform (.remove lockPath)).2 with
  | ok done => exact removed
  | error errno =>
      have changed : journal.Agree (attempted one (.remove lockPath)).files
          (attempted two (.remove lockPath)).files := removed
      exact changed.log oneJournal twoJournal _ _

/-- Taking the lock leaves the journal as it was opened. -/
theorem journal_lock (store : Store) (session : Session) :
    (store.lock session).2.journal = session.journal := by
  by_cases there : session.files.isDirectory store.root = true
  · rcases attempt : (session.files.perform (store.taking session)).2 with errno | _
    · rw [store.lock_of_refused there attempt]
      rfl
    · rw [store.lock_of_made there attempt]
      rfl
  · rw [store.lock_of_noDirectory (by simpa using there)]

private theorem checkFollowing_together {after : Session} {verdict : Verdict}
    (several : 2 ≤ options.jobs) (avoids : store.AvoidsJournal (store.entered options session)
      (source.objects.contents (store.entered options session)).items)
    (finishes : store.Finishes source schedule options.jobs (store.entered options session))
    (reorderable : options.dryRun = false → after.report.corrupt ≠ [] → 0 ∉ store.root →
      store.Reorderable session.journal (store.entered options session).files after.report.corrupt)
    (checked : store.check { options with jobs := 1 } source session = (.ok verdict, after)) :
    ∃ last, store.checkFollowing options source schedule session = (.ok verdict, last) ∧
      session.journal.Agree after.files last.files := by
  rw [check_eq_checkBy] at checked
  change store.checkBy options source (store.objectsPass source 1) session = _ at checked
  unfold checkFollowing
  unfold checkBy at checked ⊢
  cases dry : options.dryRun with
  | true =>
      rw [store.entered_of_dryRun dry] at avoids finishes reorderable
      simp only [dry, if_true] at checked ⊢
      obtain ⟨last, concluded, -, -, agree⟩ :=
        concludeAfter_together several avoids finishes reorderable checked
      exact ⟨last, concluded, agree⟩
  | false =>
      have same : store.entered options session = renewed options (store.lock session).2 := by
        rw [entered, dry, if_neg Bool.false_ne_true]
      have journal := store.journal_lock session
      rw [same] at avoids finishes reorderable
      simp only [dry, Bool.false_eq_true, if_false] at checked ⊢
      rw [holdingLock_apply] at checked ⊢
      rw [← journal] at reorderable ⊢
      rcases taken : store.lock session with ⟨failure | _ | lockPath, begun⟩ <;>
        rw [taken] at avoids finishes reorderable checked
      · cases checked
      · obtain ⟨last, concluded, -, -, agree⟩ :=
          concludeAfter_together several avoids finishes reorderable checked
        exact ⟨last, concluded, agree⟩
      · obtain ⟨outcome, rfl⟩ := Prod.mk.inj checked
        have report := within_sameReport_release lockPath
          (store.concludeAfter options (passes options source (store.objectsPass source 1)) begun).2
        rw [SameReport] at report
        rw [report] at reorderable
        obtain ⟨last, concluded, reachedJournal, lastJournal, agree⟩ :=
          concludeAfter_together several avoids finishes reorderable (Prod.ext outcome rfl)
        refine ⟨(release lockPath last).2, ?_,
          release_together agree reachedJournal lastJournal lockPath⟩
        dsimp only
        rw [show store.concludeAfter options (passes options source _) begun = _ from concluded]

/-- What a pass over the objects with workers has in common with the pass without workers: it fails
if and only if that does, for a cause in the feed or in an item, and else every object was opened as
often as the feed names it. The reports then differ in the order of the findings only, unless the
open journal file is among the objects. -/
structure PassTogether (store : Store) (source : ScanSource) (session : Session)
    (result : Except Failure Unit × Session) : Prop where
  fails_iff : (∃ failure, result.1 = .error failure) ↔
    ∃ failure, (store.objectsPass source 1 session).1 = .error failure
  causes : ∀ failure, result.1 = .error failure →
    store.Causes session.files (source.objects.contents session) failure
  opened : result.1 = .ok () → result.2.opened.Perm
    (session.opened ++ (source.objects.contents session).items.flatMap store.opens)
  found : store.AvoidsJournal session (source.objects.contents session).items →
    result.1 = .ok () → ∃ inOrder reported : List Finding, reported.Perm inOrder ∧
      (store.objectsPass source 1 session).2.report.findings =
        session.report.findings ++ inOrder ∧
      result.2.report.findings = session.report.findings ++ reported ∧
      (store.objectsPass source 1 session).2.report.text =
        session.report.text ++ Bytes.ofLines (inOrder.map Finding.line) ∧
      result.2.report.text = session.report.text ++ Bytes.ofLines (reported.map Finding.line) ∧
      ∀ oid, oid ∈ result.2.report.corrupt ↔
        oid ∈ (store.objectsPass source 1 session).2.report.corrupt

private theorem passTogether_objectsPassFollowing {jobs : Int} (several : 2 ≤ jobs)
    (finishes : store.Finishes source schedule jobs session) :
    store.PassTogether source session
      (store.objectsPassFollowing source schedule jobs session) := by
  rcases objectsPassFollowing_cases several finishes with
    ⟨failure, failed, causes⟩ | ⟨fine, -, opened, reported, accords, perm⟩
  · have others : ∃ other, (store.objectsPass source 1 session).1 = .error other := by
      cases ends : (store.objectsPass source 1 session).1 with
      | error other => exact ⟨other, rfl⟩
      | ok _ => exact absurd (objectsPass_eq_ok_iff.mp ends) causes.failure?
    have notOk (ended : (store.objectsPassFollowing source schedule jobs session).1 = .ok ()) :
        False := by
      cases failed.symm.trans ended
    refine ⟨⟨fun _ => others, fun _ => ⟨failure, failed⟩⟩, fun other again => ?_,
      fun ended => (notOk ended).elim, fun _ ended => (notOk ended).elim⟩
    cases failed.symm.trans again
    exact causes
  · obtain ⟨told, toldAll⟩ := findings_map_some reported
    have aloneEnds := objectsPass_eq_ok_iff.mpr fine
    have ends := accords.outcome.trans (outcome_eq_ok.mpr toldAll)
    have report := accords.report
    rw [told] at report
    refine ⟨⟨fun ⟨failure, failed⟩ => ?_, fun ⟨failure, failed⟩ => ?_⟩, fun failure failed => ?_,
      fun _ => opened, fun avoids _ => ?_⟩
    · cases ends.symm.trans failed
    · cases aloneEnds.symm.trans failed
    · cases ends.symm.trans failed
    obtain ⟨alone, -⟩ := objectsPass_accords_judgements avoids
    refine ⟨_, reported, perm avoids, ?_, ?_, ?_, ?_, fun oid => ?_⟩
    · rw [alone.report, Report.findings_foldl_add]
    · rw [report, Report.findings_foldl_add]
    · rw [alone.report, Report.text_foldl_add]
    · rw [report, Report.text_foldl_add]
    · rw [alone.report, report, Report.mem_corrupt_foldl_add, Report.mem_corrupt_foldl_add]
      simp only [(perm avoids).mem_iff]

/-- **Checks with workers.** Whatever the order in which the workers of a pass take their turns,
once all have come to their end the pass has failed if the pass without workers fails, and else it
has found what that finds; and however the turns begin, they can go on so that all come to their
end. If the check without workers ends normally, so does that with workers,
with the same verdict and the same files but for records, as long as the open journal file is not
among the objects and the order of the moves in a repair does not matter. The order of the program
itself is one of these. -/
theorem check_together (store : Store) (source : ScanSource) {jobs : Int} (several : 2 ≤ jobs) :
    (∀ session,
      (∀ earlier, ∃ later, store.Finishes source (earlier ++ later) jobs session) ∧
      (∃ schedule, store.Finishes source schedule jobs session ∧
        store.objectsPass source jobs session =
          store.objectsPassFollowing source schedule jobs session) ∧
      ∀ schedule, store.Finishes source schedule jobs session →
        store.PassTogether source session
          (store.objectsPassFollowing source schedule jobs session)) ∧
    ∀ options session, options.jobs = jobs →
      let entered := store.entered options session
      (∃ schedule, store.Finishes source schedule jobs entered ∧
        store.check options source session =
          store.checkFollowing options source schedule session) ∧
      ∀ schedule verdict after, store.Finishes source schedule jobs entered →
        store.AvoidsJournal entered (source.objects.contents entered).items →
        (options.dryRun = false → after.report.corrupt ≠ [] → 0 ∉ store.root →
          store.Reorderable session.journal entered.files after.report.corrupt) →
        store.check { options with jobs := 1 } source session = (.ok verdict, after) →
        ∃ last, store.checkFollowing options source schedule session = (.ok verdict, last) ∧
          session.journal.Agree after.files last.files := by
  refine ⟨fun session =>
    ⟨fun earlier => store.exists_finishes_append source several earlier session,
      exists_finishes several session, fun schedule finishes => ?_⟩, ?_⟩
  · exact passTogether_objectsPassFollowing several finishes
  · rintro options session rfl
    refine ⟨?_, fun schedule verdict after finishes avoids reorderable checked => ?_⟩
    · obtain ⟨schedule, finishes, same⟩ :=
        exists_finishes several (store.entered options session)
      rw [check_eq_checkBy]
      exact ⟨schedule, finishes, store.checkBy_congr options source same⟩
    · exact checkFollowing_together several avoids finishes reorderable checked

/-- A source that asks for objects. -/
def asking (oids : List Bytes) : ScanSource :=
  ⟨[.listed (oids.map fun oid => .pointer { oid, size := 1 }) none], []⟩

/-- A store in the directory `s`, with what stands at the places of objects. -/
def shelved (objects : List (Bytes × Entry)) : List (Place × Entry) :=
  ([ascii "s"], .directory) :: ([ascii "s", ascii "objects"], .directory) ::
    objects.flatMap fun (oid, entry) =>
      [([ascii "s", ascii "objects", oid.take 2], .directory),
        (ascii "s" :: objectDirectory oid, .directory), (objectPlace [ascii "s"] oid, entry)]

/-- A schedule by which two workers take two items and the second one is reported first. -/
def overtaking : List PoolThread :=
  [.scanner 0, .scanner 0, .scanner 0, .scanner 0, .worker 0, .worker 1, .worker 1, .worker 1,
    .worker 1, .worker 0, .worker 0, .worker 0, .scanner 0, .scanner 0, .worker 0, .worker 1]

/-- Two corrupt objects, of which the second one is reported first. -/
theorem check_together_of_two_objects :
    let store : Store := ⟨ascii "s"⟩
    let first := List.replicate 64 Ascii.zero
    let second := List.replicate 64 (49 : UInt8)
    let session : Session :=
      { files := { entries := shelved [(first, .file [7]), (second, .file [8])] } }
    let alone := store.check {} (asking [first, second]) session
    alone.1 = .ok .corrupt ∧ ∃ last,
      store.checkFollowing { jobs := 2 } (asking [first, second]) overtaking session =
        (.ok .corrupt, last) ∧
      ∀ place, last.files.get? place = alone.2.files.get? place := by
  intro store first second session alone
  have outcome : alone.1 = .ok .corrupt := by decide +kernel
  have corrupt : alone.2.report.corrupt = [first, second] := by decide +kernel
  have noFile (place : Place) : session.journal.sink ≠ .file place := nofun
  have entered : (store.entered { jobs := 2 } session).journal = session.journal :=
    store.journal_lock session
  obtain ⟨-, whole⟩ := check_together store (asking [first, second]) (Int.le_refl 2)
  obtain ⟨-, follows⟩ := whole { jobs := 2 } session rfl
  obtain ⟨last, ends, agree⟩ := follows overtaking .corrupt alone.2 (by decide +kernel)
    (avoidsJournal_of_noFile (entered ▸ noFile) _)
    (fun _ _ _ => by
      rw [corrupt]
      exact ⟨isTree_of_entries (by decide +kernel), plain_of_entries (by decide +kernel),
        clear_of_entries noFile (by decide +kernel)⟩)
    (Prod.ext outcome rfl)
  exact ⟨outcome, last, ends, agree.get?_eq noFile⟩

/-- What a check with workers can do that the one without does not. -/
theorem check_differs_with_workers :
    let store : Store := ⟨ascii "s"⟩
    let first := List.replicate 64 Ascii.zero
    let second := List.replicate 64 (49 : UInt8)
    -- A failure without a kind is reported as a failed scan.
    (let source : ScanSource := ⟨[.listed [] (some (.foreign (ascii "feed failed")))], []⟩
      let outcome (jobs : Int) := (store.objectsPass source jobs {}).1
      outcome 1 = .error (.foreign (ascii "feed failed")) ∧
      outcome 2 = .error (.reported .scanFailed (ascii "feed failed"))) ∧
    -- The records in an open journal file are others.
    (let session : Session :=
        { files := { entries := [([ascii "log"], .file [])] }
          journal := { level := Journal.traceLevel, sink := .file [ascii "log"] } }
      let alone := store.check {} (asking []) session
      let together := store.check { jobs := 2 } (asking []) session
      alone.1 = .ok .clean ∧ together.1 = .ok .clean ∧
      together.2.files.get? [ascii "log"] ≠ alone.2.files.get? [ascii "log"]) ∧
    -- An object that is the journal file is empty only for the worker that comes first.
    (let empty := Digest.nameOf []
      let session : Session :=
        { files := { entries := shelved [(empty, .file [])] }
          journal := { level := Journal.noteLevel, sink := .file (objectPlace [ascii "s"] empty) } }
      let source := asking [empty, second]
      store.Finishes source overtaking 2 session ∧
      (store.objectsPass source 1 session).2.report.findings.length = 1 ∧
      (store.objectsPassFollowing source overtaking 2 session).2.report.findings.length = 2) ∧
    -- The directory of the second object is a link to where the first one is moved.
    (let session : Session :=
        { files := { entries := shelved [(first, .link (ascii "../real"))] ++
            [([ascii "s", ascii "objects", ascii "11"], .link (ascii "../bad/" ++ first)),
              ([ascii "s", ascii "real"], .directory),
              ([ascii "s", ascii "real", ascii "11"], .directory),
              ([ascii "s", ascii "real", ascii "11", second], .link (ascii "nowhere"))] } }
      let source := asking [first, second]
      store.Finishes source overtaking 2 (store.entered { jobs := 2 } session) ∧
      (store.check {} source session).1 = .ok .corrupt ∧
      (store.checkFollowing { jobs := 2 } source overtaking session).1 ≠ .ok .corrupt) ∧
    -- The root leads through the place of the second object, which the repair makes a directory.
    let object := List.replicate 64 (97 : UInt8)
    let inward : Store := ⟨ascii "s/objects/aa/aa/" ++ object ++ ascii "/../../../.."⟩
    let session : Session :=
      { files := { entries := shelved [(first, .file [])] ++
          [([ascii "s", ascii "objects", ascii "aa"], .directory),
            ([ascii "s", ascii "objects", ascii "aa", ascii "aa"], .directory)] } }
    let source := asking [first, object]
    inward.Finishes source overtaking 2 (inward.entered { jobs := 2 } session) ∧
    (inward.check {} source session).1 = .ok .corrupt ∧
    (inward.checkFollowing { jobs := 2 } source overtaking session).1 ≠ .ok .corrupt := by
  refine ⟨?_, ?_, ?_, ?_, ?_⟩
  · decide +kernel
  · decide +kernel
  · decide +kernel
  · decide +kernel
  · decide +kernel

end StoreAudit.Store
