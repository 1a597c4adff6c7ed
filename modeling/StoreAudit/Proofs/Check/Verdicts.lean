import StoreAudit.Proofs.Check.Together

/-!
# Verdicts and hindrances

While no journal file is open, a check comes to a verdict unless something hinders it: the lock is
refused, a feed breaks off, an object cannot be looked at, or what was found cannot be moved
(`Store.Hindrance`). Which of the two it is does not depend on the order in which workers take their
turns, as long as all come to their end, and neither does what a check with a verdict has found
(`Store.checkFollowing_ends`).
-/

namespace StoreAudit.Store

open Audit Judgement

section Definitions

variable (store : Store) (options : CheckOptions) (source : ScanSource) (session : Session)

/-- The session in which the pass over the objects, if it is wanted, leaves the feed of pointers. -/
def pastObjects : Session :=
  if options.wantsObjects then (source.objects.contents session).after else session

/-- The session in which the feeds that are wanted have delivered everything. -/
def exhausted : Session :=
  let reached := pastObjects options source session
  if options.wantsPointers then (source.pointers.contents reached).after else reached

/-- The feeds that are wanted come to their end, and every item among the objects has a judgement.
-/
structure Drains : Prop where
  objects : options.wantsObjects = true →
    (source.objects.contents session).failure = none ∧
      ∀ item ∈ (source.objects.contents session).items,
        ∃ found, store.judge session.files item = .ok found
  pointers : options.wantsPointers = true →
    (source.pointers.contents (pastObjects options source session)).failure = none

/-- What is wrong with the items of the feeds that are wanted. -/
def dues : List Finding :=
  (if options.wantsObjects then
    (source.objects.contents session).items.flatMap (store.due session.files)
  else []) ++
  if options.wantsPointers then
    (source.pointers.contents (pastObjects options source session)).items.filterMap
      ScanItem.problem?
  else []

end Definitions

variable {store : Store} {options : CheckOptions} {source : ScanSource}
  {schedule : List PoolThread} {session : Session}

private theorem failure?_objectJudgements_iff :
    failure? (store.objectJudgements source session) = none ↔
      (source.objects.contents session).failure = none ∧
        ∀ item ∈ (source.objects.contents session).items,
          ∃ found, store.judge session.files item = .ok found := by
  constructor
  · intro fine
    obtain ⟨judged, ended⟩ := failure?_append_eq_none.mp fine
    refine ⟨failure?_toList_eq_none ended, fun item member => ?_⟩
    exact failure?_eq_none_iff.mp judged _ (List.mem_map_of_mem member)
  · rintro ⟨ended, judged⟩
    exact (objectJudgements_settled ended judged).1

/-- A pass over the objects whose workers come to their end, if there are several, fails or has
found what there is to find. -/
theorem objectsPassFollowing_ends_or_fails {jobs : Int}
    (noFile : ∀ place, session.journal.sink ≠ .file place)
    (finishes : 2 ≤ jobs → store.Finishes source schedule jobs session) :
    let result := store.objectsPassFollowing source schedule jobs session
    (failure? (store.objectJudgements source session) ≠ none ∧
        ∃ failure, result.1 = .error failure) ∨
      failure? (store.objectJudgements source session) = none ∧
        result.2.Alike (source.objects.contents session).after ∧
        ∃ reported : List Finding,
          reported.Perm (findings (store.objectJudgements source session)) ∧
          Accords session result (reported.map fun finding => .ok (some finding)) := by
  have avoids : store.AvoidsJournal session (source.objects.contents session).items :=
    avoidsJournal_of_noFile noFile _
  by_cases several : 2 ≤ jobs
  · rcases objectsPassFollowing_cases several (finishes several) with
      ⟨failure, failed, causes⟩ | ⟨fine, alike, -, reported, accords, perm⟩
    · exact .inl ⟨causes.failure?, failure, failed⟩
    · exact .inr ⟨fine, alike, reported, perm avoids, accords⟩
  · have few : Pool.workersFor jobs = 1 := Pool.workersFor_eq_one (by omega)
    have alone : store.objectsPassFollowing source schedule jobs session =
        store.objectsPass source 1 session := by
      simp only [objectsPassFollowing, objectsPass, checkObjects, few,
        Pool.workersFor_eq_one (Int.le_refl 1), if_true]
    obtain ⟨accords, alike⟩ := objectsPass_accords_judgements avoids
    rw [alone]
    cases failed : failure? (store.objectJudgements source session) with
    | some failure =>
        refine .inl ⟨Option.some_ne_none failure, failure, ?_⟩
        rw [accords.outcome, Judgement.outcome, failed]
    | none => exact .inr ⟨rfl, alike failed, _, .refl _, accords.found failed⟩

private theorem failure?_pointerJudgements_iff :
    failure? (pointerJudgements options source session) = none ↔
      (options.wantsPointers = true → (source.pointers.contents session).failure = none) := by
  unfold pointerJudgements
  cases options.wantsPointers with
  | false => exact iff_of_true rfl nofun
  | true =>
      simp only [if_true, forall_const, Feed.Contents.judgements, failure?_append_eq_none]
      constructor
      · exact fun fine => failure?_toList_eq_none fine.2
      · intro ended
        rw [ended]
        refine ⟨failure?_eq_none_iff.mpr fun judgement member => ?_, rfl⟩
        obtain ⟨index, inside, rfl⟩ := List.mem_mapIdx.mp member
        exact ⟨_, rfl⟩

private theorem findings_mapIdx_problem? (items : List ScanItem) :
    findings (items.mapIdx fun _ item => .ok item.problem?) =
      items.filterMap ScanItem.problem? := by
  induction items with
  | nil => rfl
  | cons item rest ih =>
      rw [List.mapIdx_cons, findings, ih]
      cases problem : item.problem? with
      | none => rw [List.filterMap_cons_none problem]; rfl
      | some finding => rw [List.filterMap_cons_some problem]; rfl

private theorem findings_pointerJudgements
    (fine : failure? (pointerJudgements options source session) = none) :
    findings (pointerJudgements options source session) =
      if options.wantsPointers then
        (source.pointers.contents session).items.filterMap ScanItem.problem?
      else [] := by
  have ended := failure?_pointerJudgements_iff.mp fine
  unfold pointerJudgements
  cases wanted : options.wantsPointers with
  | false => rfl
  | true =>
      simp only [if_true, Feed.Contents.judgements, ended wanted, Option.toList_none,
        List.map_nil, List.append_nil]
      exact findings_mapIdx_problem? _

/-- The pass over the pointers, if it is wanted, fails or has found what there is to find. -/
theorem wantedPointers_ends_or_fails {reference : Session} (alike : session.Alike reference) :
    let result := wantedPointers options source session
    (failure? (pointerJudgements options source reference) ≠ none ∧
        ∃ failure, result.1 = .error failure) ∨
      failure? (pointerJudgements options source reference) = none ∧
        result.2.Alike (if options.wantsPointers then
          (source.pointers.contents reference).after else reference) ∧
        Accords session result (pointerJudgements options source reference) := by
  have accords : Accords session (wantedPointers options source session)
      (pointerJudgements options source reference) := wantedPointers_accords alike
  cases failed : failure? (pointerJudgements options source reference) with
  | some failure =>
      refine .inl ⟨Option.some_ne_none failure, failure, ?_⟩
      rw [accords.outcome, Judgement.outcome, failed]
  | none =>
      refine .inr ⟨rfl, ?_, accords⟩
      have passed := accords.eq_ok failed
      unfold wantedPointers at passed ⊢
      cases wanted : options.wantsPointers with
      | false => exact alike
      | true =>
          simp only [wanted, if_true] at passed ⊢
          have begun : (begin .pointers session).2.Alike reference :=
            ⟨alike.signal, alike.children, alike.spawns⟩
          exact (Feed.drain_ends (fun _ item => .ok item.problem?)
            (fun item session => ⟨(item.visit_accords session).1, session.files,
              session.sees_self, (item.visit_accords session).2⟩) begun passed).2

private theorem drains_iff : store.Drains options source session ↔
    (options.wantsObjects = true → failure? (store.objectJudgements source session) = none) ∧
      failure? (pointerJudgements options source (pastObjects options source session)) = none := by
  rw [failure?_objectJudgements_iff, failure?_pointerJudgements_iff]
  exact ⟨fun drains => ⟨drains.objects, drains.pointers⟩, fun drains => ⟨drains.1, drains.2⟩⟩

private theorem dues_eq (drains : store.Drains options source session) :
    store.dues options source session =
      (if options.wantsObjects then findings (store.objectJudgements source session) else []) ++
        findings (pointerJudgements options source (pastObjects options source session)) := by
  rw [findings_pointerJudgements (drains_iff.mp drains).2, dues]
  cases wanted : options.wantsObjects with
  | false => rfl
  | true =>
      obtain ⟨ended, judged⟩ := drains.objects wanted
      rw [if_pos rfl, if_pos rfl, (objectJudgements_settled ended judged).2]

/-- The passes of a check whose workers come to their end fail, or have drained their feeds and
found what there is to find. -/
theorem passesFollowing_ends_or_fails
    (noFile : ∀ place, session.journal.sink ≠ .file place)
    (finishes : options.wantsObjects = true → 2 ≤ options.jobs →
      store.Finishes source schedule options.jobs session) :
    let result := store.passesFollowing options source schedule session
    (¬ store.Drains options source session ∧ ∃ failure, result.1 = .error failure) ∨
      store.Drains options source session ∧
        result.2.Alike (exhausted options source session) ∧
        ∃ reported : List Finding, reported.Perm (store.dues options source session) ∧
          Accords session result (reported.map fun finding => .ok (some finding)) := by
  unfold passesFollowing
  rw [passes_eq]
  cases wanted : options.wantsObjects with
  | false =>
      rw [if_neg Bool.false_ne_true]
      have past : pastObjects options source session = session := by
        rw [pastObjects, wanted, if_neg Bool.false_ne_true]
      have alikePast : session.Alike (pastObjects options source session) := by
        rw [past]
        exact .refl _
      rcases wantedPointers_ends_or_fails alikePast with
        ⟨broken, failure, failed⟩ | ⟨fine, alike, accords⟩
      · exact .inl ⟨fun drains => broken (drains_iff.mp drains).2, failure, failed⟩
      have drains : store.Drains options source session :=
        drains_iff.mpr ⟨fun objects => absurd (wanted.symm.trans objects) Bool.false_ne_true, fine⟩
      have dues := dues_eq drains
      rw [wanted, if_neg Bool.false_ne_true, List.nil_append] at dues
      exact .inr ⟨drains, alike, _, dues ▸ .refl _, accords.found fine⟩
  | true =>
      rw [if_pos rfl]
      have past : pastObjects options source session = (source.objects.contents session).after := by
        rw [pastObjects, wanted, if_pos rfl]
      rcases objectsPassFollowing_ends_or_fails noFile (finishes wanted) with
        ⟨broken, failure, failed⟩ | ⟨fineObjects, alikeObjects, reported, perm, accordsObjects⟩
      · refine .inl ⟨fun drains => broken ((drains_iff.mp drains).1 wanted), failure, ?_⟩
        rw [bind_apply_of_error (Prod.ext failed rfl)]
      obtain ⟨told, toldAll⟩ := findings_map_some reported
      have passed := accordsObjects.eq_ok toldAll
      rw [← past] at alikeObjects
      rcases wantedPointers_ends_or_fails alikeObjects with
        ⟨broken, failure, failed⟩ | ⟨fine, alike, accords⟩
      · refine .inl ⟨fun drains => broken (drains_iff.mp drains).2, failure, ?_⟩
        rw [bind_apply_of_ok passed, failed]
      have drains : store.Drains options source session :=
        drains_iff.mpr ⟨fun _ => fineObjects, fine⟩
      have dues := dues_eq drains
      rw [wanted, if_pos rfl] at dues
      have both : Accords session ((store.objectsPassFollowing source schedule options.jobs >>=
          fun _ => wantedPointers options source) session) _ :=
        accordsObjects.bind fun _ => accords
      obtain ⟨foundBoth, fineBoth⟩ := append_of_no_failure toldAll
        (pointerJudgements options source (pastObjects options source session))
      refine .inr ⟨drains, ?_, _, ?_, both.found (fineBoth.trans fine)⟩
      · rw [bind_apply_of_ok passed]
        exact alike
      · rw [foundBoth, told, dues]
        exact perm.append_right _

/-- Whether a check that found something comes to a verdict is up to the repair. -/
theorem conclude_outcome (store : Store) {reached : Session} {findings : List Finding}
    (reported : reached.report = findings.foldl Report.add { dryRun := options.dryRun }) :
    (store.conclude options reached).1 =
      if findings = [] then .ok .clean
      else if repairs options findings then (store.repair reached).1.map fun _ => .corrupt
      else .ok .corrupt := by
  have idle := isEmpty_corrupt_foldl_add options findings
  have found : reached.report.findings = findings := by
    rw [reported, Report.findings_foldl_add, List.nil_append]
  rw [← reported] at idle
  by_cases clean : findings = []
  · rw [store.conclude_of_isOk options (by rw [Report.isOk, found, clean]; rfl), if_pos clean]
  have notOk : reached.report.isOk = false := by
    rw [Report.isOk, found]
    simpa using clean
  rw [if_neg clean]
  cases wanted : repairs options findings with
  | false => rw [store.conclude_of_idle options notOk (by rw [idle, wanted]; rfl)]; rfl
  | true =>
      rw [store.conclude_of_repair options notOk (by rw [idle, wanted]; rfl), repairAndNote,
        bind_apply]
      rcases store.repair reached with ⟨_ | _, _⟩ <;> rfl

/-- A check that found something fails only in its repair. -/
theorem conclude_fails_iff {reached : Session} {findings : List Finding}
    (reported : reached.report = findings.foldl Report.add { dryRun := options.dryRun }) :
    (∃ failure, (store.conclude options reached).1 = .error failure) ↔
      repairs options findings = true ∧ ∃ failure, (store.repair reached).1 = .error failure := by
  rw [store.conclude_outcome reported]
  by_cases clean : findings = []
  · simp [clean, repairs]
  rw [if_neg clean]
  cases repairs options findings with
  | false => simp
  | true => cases (store.repair reached).1 <;> simp [Except.map]

private theorem clean_iff_of_conclude {reached : Session} {findings : List Finding}
    {verdict : Verdict}
    (reported : reached.report = findings.foldl Report.add { dryRun := options.dryRun })
    (ended : (store.conclude options reached).1 = .ok verdict) :
    verdict = .clean ↔ findings = [] := by
  have unclean : Verdict.corrupt ≠ .clean := by decide
  rw [store.conclude_outcome reported] at ended
  by_cases clean : findings = []
  · rw [if_pos clean] at ended
    cases ended
    exact iff_of_true rfl clean
  rw [if_neg clean] at ended
  refine iff_of_false ?_ clean
  rintro rfl
  cases wanted : repairs options findings with
  | false =>
      rw [wanted, if_neg Bool.false_ne_true] at ended
      exact unclean (Except.ok.inj ended)
  | true =>
      rw [wanted, if_pos rfl] at ended
      cases moves : (store.repair reached).1 with
      | error failure =>
          rw [moves] at ended
          cases ended
      | ok moved =>
          rw [moves] at ended
          exact unclean (Except.ok.inj ended)

/-- What a scan can tell of a session stays the same. -/
def SameOutlook (before after : Session) : Prop := after.Alike before

instance : IsPreorder Session SameOutlook where
  refl _ := .refl _
  trans _ _ _ first second := second.trans first

private theorem kept_sameOutlook : Kept SameOutlook fun _ => True :=
  ⟨fun _ _ _ => ⟨rfl, rfl, rfl⟩, fun _ _ _ => ⟨rfl, rfl, rfl⟩⟩

private theorem alike_conclude (store : Store) (options : CheckOptions) (session : Session) :
    (store.conclude options session).2.Alike session :=
  kept_sameOutlook.conclude options store.allowedFor_any (fun _ _ => ⟨rfl, rfl, rfl⟩) session

/-- What keeps a check from a verdict. -/
inductive Hindrance (store : Store) (options : CheckOptions) (source : ScanSource)
    (schedule : List PoolThread) (session : Session) : Prop
  /-- The lock is refused. -/
  | lock {failure : Failure} : options.dryRun = false →
      (store.lock session).1 = .error failure → Hindrance store options source schedule session
  /-- A feed breaks off, or an item among the objects has no judgement. -/
  | scan : ¬ store.Drains options source (store.entered options session) →
      Hindrance store options source schedule session
  /-- What was found cannot be moved. -/
  | repair {reached : Session} {failure : Failure} :
      store.passesFollowing options source schedule (store.entered options session) =
        (.ok (), reached) →
      repairs options reached.report.findings = true →
      (store.repair reached).1 = .error failure → Hindrance store options source schedule session

/-- The end of a check: something hindered it and it failed, or nothing did and the verdict is that
there is nothing to find or that there is, and that much was found. -/
structure Ends (store : Store) (options : CheckOptions) (source : ScanSource)
    (schedule : List PoolThread) (session : Session)
    (result : Except Failure Verdict × Session) : Prop where
  fails_iff : (∃ failure, result.1 = .error failure) ↔
    store.Hindrance options source schedule session
  drains : ∀ verdict, result.1 = .ok verdict →
    store.Drains options source (store.entered options session) ∧
      result.2.Alike (exhausted options source (store.entered options session))
  found : ∀ verdict, result.1 = .ok verdict →
    result.2.report.findings.Perm (store.dues options source (store.entered options session)) ∧
      (verdict = .clean ↔ store.dues options source (store.entered options session) = [])

private theorem Ends.of_hindrance {failure : Failure} {after : Session}
    (hindrance : store.Hindrance options source schedule session) :
    store.Ends options source schedule session (.error failure, after) where
  fails_iff := iff_of_true ⟨failure, rfl⟩ hindrance
  drains := nofun
  found := nofun

/-- A check past its lock ends as its passes and its repair say. -/
theorem concludeAfter_ends {middle : Session}
    (entered : store.entered options session = renewed options middle)
    (unlocked : options.dryRun = false → ∃ held, (store.lock session).1 = .ok held)
    (noFile : ∀ place, middle.journal.sink ≠ .file place)
    (completes : store.Completes options source schedule session) :
    store.Ends options source schedule session
      (store.concludeAfter options (store.passesFollowing options source schedule) middle) := by
  have noFileEntered : ∀ place, (store.entered options session).journal.sink ≠ .file place := by
    rwa [entered]
  rw [concludeAfter_apply, ← entered]
  rcases passesFollowing_ends_or_fails noFileEntered completes with
    ⟨broken, failure, failed⟩ | ⟨drains, alike, reported, perm, accords⟩
  · have shape : store.passesFollowing options source schedule (store.entered options session) =
        (.error failure, _) := Prod.ext failed rfl
    rw [shape]
    exact .of_hindrance (.scan broken)
  · obtain ⟨told, toldAll⟩ := findings_map_some reported
    have shape := accords.eq_ok toldAll
    have report := accords.report
    rw [told] at report
    generalize (store.passesFollowing options source schedule (store.entered options session)).2 =
      reached at shape report alike
    rw [entered] at report
    rw [shape]
    dsimp only
    obtain ⟨found, -⟩ := store.conclude_settles report
    have listed : reached.report.findings = reported := by
      rw [report, Report.findings_foldl_add]
      rfl
    refine ⟨⟨fun fails => ?_, fun hindrance => ?_⟩, fun verdict ended => ?_,
      fun verdict ended => ?_⟩
    · obtain ⟨wanted, failure, moves⟩ := (conclude_fails_iff report).mp fails
      exact .repair shape (listed.symm ▸ wanted) moves
    · cases hindrance with
      | lock dry refused =>
          obtain ⟨held, locked⟩ := unlocked dry
          cases locked.symm.trans refused
      | scan broken => exact absurd drains broken
      | repair passed wanted moves =>
          cases shape.symm.trans passed
          exact (conclude_fails_iff report).mpr ⟨listed ▸ wanted, _, moves⟩
    · exact ⟨drains, (alike_conclude store options reached).trans alike⟩
    · rw [found, clean_iff_of_conclude report ended]
      exact ⟨perm, fun empty => (empty ▸ perm).symm.eq_nil, fun empty => (empty ▸ perm).eq_nil⟩

private theorem Ends.release {result : Except Failure Verdict × Session}
    (ends : store.Ends options source schedule session result) (lockPath : Bytes) :
    store.Ends options source schedule session (result.1, (release lockPath result.2).2) where
  fails_iff := ends.fails_iff
  drains verdict ended :=
    ⟨(ends.drains verdict ended).1, IsTrans.trans (r := SameOutlook) _ _ _
      (ends.drains verdict ended).2 (kept_sameOutlook.release trivial result.2)⟩
  found verdict ended := by
    have report := within_sameReport_release lockPath result.2
    rw [SameReport] at report
    rw [report]
    exact ends.found verdict ended

/-- Every check whose workers come to their end fails for a hindrance, or comes to a verdict. -/
theorem checkFollowing_ends (noFile : ∀ place, session.journal.sink ≠ .file place)
    (completes : store.Completes options source schedule session) :
    store.Ends options source schedule session
      (store.checkFollowing options source schedule session) := by
  unfold checkFollowing checkBy
  cases dry : options.dryRun with
  | true =>
      simp only [if_true]
      exact concludeAfter_ends (store.entered_of_dryRun dry) (by simp [dry]) noFile completes
  | false =>
      have entered : store.entered options session = renewed options (store.lock session).2 := by
        rw [Store.entered, dry, if_neg Bool.false_ne_true]
      have noFile : ∀ place, (store.lock session).2.journal.sink ≠ .file place := by
        rwa [store.journal_lock session]
      simp only [Bool.false_eq_true, if_false]
      rw [holdingLock_apply]
      rcases taken : store.lock session with ⟨failure | held, middle⟩
      · exact .of_hindrance (.lock dry (by rw [taken]))
      rw [taken] at entered noFile
      have ends : store.Ends options source schedule session _ :=
        concludeAfter_ends entered (fun _ => ⟨held, by rw [taken]⟩) noFile completes
      cases held with
      | none => exact ends
      | some lockPath => exact ends.release lockPath

/-- A check leaves the journal as it was opened. -/
theorem journal_checkFollowing (store : Store) (options : CheckOptions) (source : ScanSource)
    (schedule : List PoolThread) (session : Session) :
    (store.checkFollowing options source schedule session).2.journal = session.journal :=
  kept_sameJournal.checkBy options source ⟨fun _ => trivial, trivial, trivial, fun _ _ _ => trivial⟩
    (fun _ _ => rfl) ((store.within_passesFollowing options source schedule).mono
      fun _ _ observes => observes.journal) session

/-- A dry run changes no files. -/
theorem checkFollowing_spares (dry : options.dryRun = true) :
    session.Spares (store.checkFollowing options source schedule session).2 := by
  unfold checkFollowing checkBy
  rw [dry, if_pos rfl]
  rcases store.concludeAfter_cases (store.within_passesFollowing options source schedule) session
    with spares | ⟨wanted, -⟩
  · exact spares
  · cases dry.symm.trans wanted

/-- A check without a finding leaves the files as they were. -/
theorem files_checkFollowing_of_clean (noFile : ∀ place, session.journal.sink ≠ .file place)
    (clean : (store.checkFollowing options source schedule session).2.report.findings = []) :
    (store.checkFollowing options source schedule session).2.files = session.files := by
  obtain ⟨⟨made, -, leaves⟩, -⟩ := store.checkBy_leavesFiles source
    (store.within_passesFollowing options source schedule) session
  refine (leaves (.inr (.inl fun finding member => ?_))).2.1 noFile
  rw [show (store.checkBy _ _ _ _).2.report.findings = [] from clean] at member
  cases member

end StoreAudit.Store
