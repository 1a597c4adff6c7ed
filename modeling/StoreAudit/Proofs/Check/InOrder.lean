import StoreAudit.Proofs.Check.Course
import StoreAudit.Proofs.Check.Visits

/-!
# Checks without workers

A check without workers reports exactly what its judgements find, one item after the other, and ends
as they say (`Store.check_in_order`).
-/

namespace StoreAudit

open Audit Judgement

/-- The judgements of everything that a feed delivers, in order; its failure is the last of them. -/
def Feed.Contents.judgements (contents : Feed.Contents) (judge : Nat → ScanItem → Judgement) :
    List Judgement :=
  contents.items.mapIdx judge ++ contents.failure.toList.map .error

private theorem Feed.Contents.judgements_cons (contents : Feed.Contents) (item : ScanItem)
    (judge : Nat → ScanItem → Judgement) :
    ({ contents with items := item :: contents.items } : Feed.Contents).judgements judge =
      [judge 0 item] ++ contents.judgements fun index => judge (index + 1) := by
  simp [judgements, List.mapIdx_cons]

/-- One view of the files and then others. -/
def viewsFrom (first : FileTree) (later : Nat → FileTree) : Nat → FileTree
  | 0 => first
  | index + 1 => later index

private theorem Feed.drain_accords (judge : FileTree → ScanItem → Judgement)
    {visit : ScanItem → Audit Unit}
    (visits : ∀ item session, session.Examines (visit item session).2 ∧
      ∃ files, session.Sees files ∧ Accords session (visit item session) [judge files item])
    {count : Nat} {feed : Feed} (enough : feed.bound < count) {session reference : Session}
    (alike : session.Alike reference) :
    ∃ view : Nat → FileTree, (∀ index, session.Sees (view index)) ∧
      let judgements := (feed.contents reference).judgements fun index => judge (view index)
      Accords session (drain visit count feed session) judgements ∧
        (failure? judgements = none →
          (drain visit count feed session).2.Alike (feed.contents reference).after) := by
  induction count generalizing feed session reference with
  | zero => exact absurd enough (Nat.not_lt_zero _)
  | succ count ih =>
      have scans := feed.scanning_next.within session
      obtain ⟨sameOutcome, sameAfter⟩ := feed.scanning_next.alike session reference alike
      rcases shape : feed.next session with ⟨outcome, after⟩
      rcases referenceShape : feed.next reference with ⟨referenceOutcome, referenceAfter⟩
      rw [shape] at scans
      rw [shape, referenceShape] at sameOutcome sameAfter
      obtain rfl : outcome = referenceOutcome := sameOutcome
      rcases outcome with failure | _ | ⟨item, rest⟩
      · rw [drain, bind_apply_of_error shape, contents_of_error referenceShape]
        exact ⟨fun _ => session.files, fun _ => session.sees_self,
          (Accords.throw failure after).after_scan scans, fun impossible => nomatch impossible⟩
      · rw [drain, bind_apply_of_ok shape, contents_of_end referenceShape]
        exact ⟨fun _ => session.files, fun _ => session.sees_self,
          (Accords.pure after).after_scan scans, fun _ => sameAfter⟩
      · rw [drain, bind_apply_of_ok shape, contents_of_item referenceShape]
        obtain ⟨examines, files, sees, accords⟩ := visits item after
        have fewer : rest.bound < count :=
          Nat.lt_of_lt_of_le (bound_of_next shape) (Nat.le_of_lt_succ enough)
        obtain ⟨view, seesLater, accordsLater, alikeLater⟩ :=
          ih fewer (examines.alike.trans sameAfter)
        have seesAfter (index : Nat) : after.Sees (view index) :=
          examines.observes.files.trans examines.observes.journal (seesLater index)
        refine ⟨viewsFrom files view, fun index => ?_, ?_⟩
        · cases index with
          | zero => exact scans.files.trans scans.journal sees
          | succ index => exact scans.files.trans scans.journal (seesAfter index)
        have both : Accords after ((visit item >>= fun _ => drain visit count rest) after)
            ([judge files item] ++
              (rest.contents referenceAfter).judgements fun index => judge (view index)) :=
          accords.bind fun _ => accordsLater
        simp only [Contents.judgements_cons]
        refine ⟨both.after_scan scans, fun fine => ?_⟩
        obtain ⟨fineFirst, fineLater⟩ := failure?_append_eq_none.mp fine
        change ((visit item >>= fun _ => drain visit count rest) after).2.Alike _
        rw [bind_apply_of_ok (accords.eq_ok fineFirst)]
        exact alikeLater fineLater

/-- A feed without a failure to judge has no failure. -/
theorem Judgement.failure?_toList_eq_none {failure : Option Failure}
    (fine : failure? (failure.toList.map .error) = none) : failure = none := by
  cases failure with
  | none => rfl
  | some failure => cases fine

/-- Visits that come to the end of a feed have asked for everything that it delivers. -/
theorem Feed.drain_ends (judge : FileTree → ScanItem → Judgement) {visit : ScanItem → Audit Unit}
    (visits : ∀ item session, session.Examines (visit item session).2 ∧
      ∃ files, session.Sees files ∧ Accords session (visit item session) [judge files item])
    {feed : Feed} {session reference last : Session} (alike : session.Alike reference)
    (drained : feed.forEach visit session = (.ok (), last)) :
    (feed.contents reference).failure = none ∧ last.Alike (feed.contents reference).after := by
  obtain ⟨view, -, accords, alikeLater⟩ :=
    drain_accords judge visits (Nat.lt_succ_self feed.bound) alike
  change drain visit (feed.bound + 1) feed session = (.ok (), last) at drained
  rw [drained] at accords alikeLater
  have fine := outcome_eq_ok.mp accords.outcome.symm
  exact ⟨failure?_toList_eq_none (failure?_append_eq_none.mp fine).2, alikeLater fine⟩

/-- The judgements of the passes that are wanted, of which those of objects are given. -/
def ScanSource.judgements (source : ScanSource) (options : CheckOptions) (session : Session)
    (judgeObject : Nat → ScanItem → Judgement) : List Judgement :=
  let objects := source.objects.contents session
  let reached := if options.wantsObjects then objects.after else session
  (if options.wantsObjects then objects.judgements judgeObject else []) ++
    if options.wantsPointers then
      (source.pointers.contents reached).judgements fun _ item => .ok item.problem?
    else []

private theorem accords_begin (pass : Pass) (session : Session) :
    Accords session ((liftM (begin pass) : Audit Unit) session) [] :=
  ⟨⟨rfl, rfl, rfl, session.sees_self, [], rfl⟩, rfl, rfl⟩

/-- A number of jobs below two means one worker. -/
theorem Pool.workersFor_eq_one {jobs : Int} (sequential : jobs ≤ 1) : workersFor jobs = 1 := by
  unfold workersFor
  omega

namespace Store

variable (store : Store) (source : ScanSource)

/-- A sequential pass over the objects does as judged, each object in the files as they are by then.
-/
theorem objectsPass_accords {jobs : Int} (sequential : jobs ≤ 1) (session : Session) :
    ∃ view : Nat → FileTree, (∀ index, session.Sees (view index)) ∧
      let judgements :=
        (source.objects.contents session).judgements fun index => store.judge (view index)
      Accords session (store.objectsPass source jobs session) judgements ∧
        (failure? judgements = none →
          (store.objectsPass source jobs session).2.Alike
            (source.objects.contents session).after) := by
  let begun : Session := { session with passes := session.passes ++ [.objects] }
  have pass : store.objectsPass source jobs session =
      (liftM (begin .objects) >>= fun _ => store.checkInOrder source.objects : Audit Unit)
        session := by
    simp only [objectsPass, checkObjects, Pool.workersFor_eq_one sequential, if_true]
  have alike : begun.Alike session := ⟨rfl, rfl, rfl⟩
  obtain ⟨view, sees, accords, alikeLater⟩ :=
    Feed.drain_accords store.judge store.visitObject_accords
      (Nat.lt_succ_self source.objects.bound) alike
  refine ⟨view, sees, ?_, fun fine => ?_⟩
  · rw [pass]
    exact (accords_begin .objects session).bind fun _ => accords
  · rw [pass]
    exact alikeLater fine

/-- A pass over the pointers does as judged. -/
theorem pointersPass_accords {session reference : Session} (alike : session.Alike reference) :
    Accords session (pointersPass source session)
      ((source.pointers.contents reference).judgements fun _ item => .ok item.problem?) := by
  let begun : Session := { session with passes := session.passes ++ [.pointers] }
  have alikeBegun : begun.Alike reference := ⟨alike.signal, alike.children, alike.spawns⟩
  obtain ⟨_, _, accords, _⟩ := Feed.drain_accords (fun _ item => .ok item.problem?)
    (fun item session => ⟨(item.visit_accords session).1, session.files, session.sees_self,
      (item.visit_accords session).2⟩)
    (Nat.lt_succ_self source.pointers.bound) alikeBegun
  exact (accords_begin .pointers session).bind fun _ => accords

/-- A pass over the pointers that does not fail has drained its feed. -/
theorem pointersPass_ends {source : ScanSource} {session last : Session}
    (passed : pointersPass source session = (.ok (), last)) :
    (source.pointers.contents session).failure = none ∧
      last.Alike (source.pointers.contents session).after := by
  have begun : (begin .pointers session).2.Alike session := ⟨rfl, rfl, rfl⟩
  exact Feed.drain_ends (fun _ item => .ok item.problem?)
    (fun item session => ⟨(item.visit_accords session).1, session.files, session.sees_self,
      (item.visit_accords session).2⟩) begun passed

/-- The passes make the judgements of everything that their feeds deliver. -/
theorem passes_accords {options : CheckOptions} (sequential : options.jobs ≤ 1)
    (session : Session) :
    ∃ view : Nat → FileTree, (∀ index, session.Sees (view index)) ∧
      Accords session
        (passes options source (store.objectsPass source options.jobs) session)
        (source.judgements options session fun index => store.judge (view index)) := by
  obtain ⟨view, sees, accords, alike⟩ := store.objectsPass_accords source sequential session
  refine ⟨view, sees, ?_⟩
  unfold passes ScanSource.judgements
  cases options.wantsObjects with
  | true =>
      simp only [if_true]
      refine accords.bind fun fine => ?_
      cases options.wantsPointers with
      | true => exact pointersPass_accords source (alike fine)
      | false => exact .pure _
  | false =>
      simp only [Bool.false_eq_true, if_false, List.nil_append]
      cases options.wantsPointers with
      | true => exact pointersPass_accords source ⟨rfl, rfl, rfl⟩
      | false => exact .pure _

/-- The session in which the passes of a check begin. -/
def entered (options : CheckOptions) (session : Session) : Session :=
  renewed options (if options.dryRun then session else (store.lock session).2)

section Entered

variable {options : CheckOptions} {session : Session}

/-- A dry run takes no lock. -/
theorem entered_of_dryRun (dry : options.dryRun = true) :
    store.entered options session = renewed options session := by
  rw [entered, dry, if_pos rfl]

/-- Without a store directory no lock is taken. -/
theorem entered_of_noDirectory (wanted : options.dryRun = false)
    (absent : session.files.isDirectory store.root = false) :
    store.entered options session = renewed options session := by
  rw [entered, wanted, if_neg Bool.false_ne_true, store.lock_of_noDirectory absent]

/-- A check that took the lock goes on from there. -/
theorem entered_of_made (wanted : options.dryRun = false)
    (there : session.files.isDirectory store.root = true)
    (made : (session.files.perform (store.taking session)).2 = .ok ()) :
    store.entered options session = renewed options (store.locked session) := by
  rw [entered, wanted, if_neg Bool.false_ne_true, store.lock_of_made there made]

/-- Entering takes no look at the stop signal. -/
theorem signal_entered (options : CheckOptions) (session : Session) :
    (store.entered options session).signal = session.signal := by
  cases dry : options.dryRun with
  | true => rw [store.entered_of_dryRun dry, renewed]
  | false =>
      cases there : session.files.isDirectory store.root with
      | false => rw [store.entered_of_noDirectory dry there, renewed]
      | true =>
          rcases attempt : (session.files.perform (store.taking session)).2 with errno | _
          · rw [entered, dry, if_neg Bool.false_ne_true, store.lock_of_refused there attempt]
            rfl
          · rw [store.entered_of_made dry there attempt]
            rfl

end Entered

/-- Whether findings make a check repair the store. -/
def repairs (options : CheckOptions) (findings : List Finding) : Bool :=
  !options.dryRun && findings.any Finding.isObjectFinding

/-- What a check prints after the lines of its findings. -/
def closing (options : CheckOptions) (findings : List Finding) : Bytes :=
  if findings = [] then okLine ++ [Ascii.newline]
  else if repairs options findings then store.repairLine ++ [Ascii.newline]
  else []

/-- What follows passes that left a session: a verdict, which is that there are no findings or that
there are, unless that session is to be repaired and its repair fails, and the check with it. -/
def Settles (options : CheckOptions) (reached : Session) (findings : List Finding)
    (outcome : Except Failure Verdict) : Prop :=
  (repairs options findings = true → ∃ moved, (store.repair reached).1 = .ok moved) ∧
    (∃ verdict, outcome = .ok verdict ∧
      (verdict.status = 0 ↔ findings = []) ∧ (verdict.status = 1 ↔ findings ≠ [])) ∨
  repairs options findings = true ∧
    ∃ failure, (store.repair reached).1 = .error failure ∧ outcome = .error failure

/-- The check has reported the findings up to the first failure and printed a line for each of them.
With a failure it fails and prints nothing else; without one its passes have come to their end, and
it settles what they left and prints what is left to say. -/
def EndsAsJudged (options : CheckOptions) (judgements : List Judgement)
    (passed : Except Failure Unit × Session) (outcome : Except Failure Verdict)
    (report : Report) : Prop :=
  report.findings = findings judgements ∧
    match failure? judgements with
    | some failure => outcome = .error failure ∧
        report.text = Bytes.ofLines ((findings judgements).map Finding.line)
    | none => passed.1 = .ok () ∧
        store.Settles options passed.2 (findings judgements) outcome ∧
        report.text = Bytes.ofLines ((findings judgements).map Finding.line) ++
          store.closing options (findings judgements)

/-- A check with these findings repairs nothing exactly if it is a dry run or none of them is about
an object. -/
theorem isEmpty_corrupt_foldl_add (options : CheckOptions) (findings : List Finding) :
    (options.dryRun ||
        (findings.foldl Report.add { dryRun := options.dryRun }).corrupt.isEmpty) =
      !repairs options findings := by
  have none : (findings.foldl Report.add { dryRun := options.dryRun }).corrupt.isEmpty =
      !findings.any Finding.isObjectFinding := by
    rw [Bool.eq_iff_iff, List.isEmpty_iff,
      Report.corrupt_foldl_add_eq_nil (Report.consistent_fresh _)]
    simp
  rw [none, repairs]
  cases options.dryRun <;> rfl

/-- The conclusion after these findings settles them. -/
theorem conclude_settles {options : CheckOptions} {reached : Session} {findings : List Finding}
    (reported : reached.report = findings.foldl Report.add { dryRun := options.dryRun }) :
    let result := store.conclude options reached
    result.2.report.findings = findings ∧ store.Settles options reached findings result.1 ∧
      result.2.report.text =
        Bytes.ofLines (findings.map Finding.line) ++ store.closing options findings := by
  have found : reached.report.findings = findings := by
    rw [reported, Report.findings_foldl_add, List.nil_append]
  have printed : reached.report.text = Bytes.ofLines (findings.map Finding.line) := by
    rw [reported, Report.text_foldl_add, List.nil_append]
  have idle := isEmpty_corrupt_foldl_add options findings
  rw [← reported] at idle
  by_cases clean : findings = []
  · rw [store.conclude_of_isOk options (by rw [Report.isOk, found, clean]; rfl)]
    refine ⟨found, .inl ⟨fun wanted => ?_, .clean, rfl, by simp [clean, Verdict.status], by
      simp [clean, Verdict.status]⟩, ?_⟩
    · simp [repairs, clean] at wanted
    · simp [closing, clean, printed]
  have notOk : reached.report.isOk = false := by
    rw [Report.isOk, found]
    simpa using clean
  have corrupt : ∃ verdict : Verdict, (.ok .corrupt : Except Failure Verdict) = .ok verdict ∧
      (verdict.status = 0 ↔ findings = []) ∧ (verdict.status = 1 ↔ findings ≠ []) :=
    ⟨.corrupt, rfl, by simp [clean, Verdict.status], by simp [clean, Verdict.status]⟩
  cases wanted : repairs options findings with
  | false =>
      rw [store.conclude_of_idle options notOk (by rw [idle, wanted]; rfl)]
      refine ⟨found, .inl ⟨fun repaired => ?_, corrupt⟩, ?_⟩
      · exact nomatch wanted.symm.trans repaired
      · simp [closing, clean, wanted, printed]
  | true =>
      rw [store.conclude_of_repair options notOk (by rw [idle, wanted]; rfl)]
      have repaired := store.report_repair reached
      have same (report : Report) (shape : report = reached.report.print store.repairLine) :
          report.findings = findings ∧ report.text =
            Bytes.ofLines (findings.map Finding.line) ++ store.closing options findings := by
        rw [shape, Report.findings_print, Report.text_print, found, printed]
        simp [closing, clean, wanted]
      rcases shape : store.repair reached with ⟨failure | moved, after⟩ <;> rw [shape] at repaired
      · rw [repairAndNote, bind_apply_of_error shape]
        obtain ⟨sameFindings, sameText⟩ := same _ repaired
        exact ⟨sameFindings, .inr ⟨wanted, failure, by rw [shape], rfl⟩, sameText⟩
      · rw [repairAndNote, bind_apply_of_ok shape]
        obtain ⟨sameFindings, sameText⟩ := same _ repaired
        exact ⟨sameFindings, .inl ⟨fun _ => ⟨moved, by rw [shape]⟩, corrupt⟩, sameText⟩

/-- A check whose passes do as judged ends as judged. -/
theorem concludeAfter_endsAsJudged {options : CheckOptions} {passes : Audit Unit}
    {session : Session} {judgements : List Judgement}
    (accords : Accords (renewed options session) (passes (renewed options session)) judgements) :
    let result := store.concludeAfter options passes session
    store.EndsAsJudged options judgements (passes (renewed options session)) result.1
      result.2.report := by
  have reported := accords.report
  rw [concludeAfter_apply]
  unfold EndsAsJudged
  cases failed : failure? judgements with
  | some failure =>
      have shape : passes (renewed options session) =
          (.error failure, (passes (renewed options session)).2) :=
        Prod.ext (by rw [accords.outcome, Judgement.outcome, failed]) rfl
      rw [shape]
      refine ⟨?_, rfl, ?_⟩
      · rw [reported, Report.findings_foldl_add]
        rfl
      · rw [reported, Report.text_foldl_add]
        rfl
  | none =>
      rw [accords.eq_ok failed]
      obtain ⟨found, settles, text⟩ := store.conclude_settles reported
      exact ⟨found, rfl, settles, text⟩

/-- **A check without workers.** Unless the lock is refused, the check reports exactly what it finds
of the items that its feeds deliver, in order, each in the files as they are then: `judge` is what
looking at an object comes to, and `problem?` what is wrong with a pointer. A file that should have
been a pointer ends the pass over the objects as a failed scan. Past its passes the check fails only
if the repair of what they left fails. -/
theorem check_in_order {options : CheckOptions} (session : Session)
    (sequential : options.jobs ≤ 1)
    (unhindered : options.dryRun = true ∨ ∃ held, (store.lock session).1 = .ok held) :
    (∀ files path treeOid, ∃ failure, store.judge files (.misplaced path treeOid) = .error failure ∧
      failure.kind = .coded .scanFailed) ∧
    ∃ view : Nat → FileTree, (∀ index, (store.entered options session).Sees (view index)) ∧
      let judgements := source.judgements options (store.entered options session)
        fun index => store.judge (view index)
      let passed := passes options source (store.objectsPass source options.jobs)
        (store.entered options session)
      let result := store.check options source session
      store.EndsAsJudged options judgements passed result.1 result.2.report := by
  refine ⟨fun files path treeOid => ⟨_, store.judge_misplaced files path treeOid, rfl⟩, ?_⟩
  rw [check_eq_checkBy, checkBy]
  cases dry : options.dryRun with
  | true =>
      obtain ⟨view, sees, accords⟩ :=
        store.passes_accords source sequential (renewed options session)
      have same : store.entered options session = renewed options session := by
        rw [entered, dry, if_pos rfl]
      rw [same]
      exact ⟨view, sees, store.concludeAfter_endsAsJudged accords⟩
  | false =>
      obtain ⟨held, locked⟩ := unhindered.resolve_left (by simp [dry])
      obtain ⟨view, sees, accords⟩ :=
        store.passes_accords source sequential (renewed options (store.lock session).2)
      have same : store.entered options session = renewed options (store.lock session).2 := by
        rw [entered, dry, if_neg Bool.false_ne_true]
      have ends := store.concludeAfter_endsAsJudged accords
      have shape : store.lock session = (.ok held, (store.lock session).2) := Prod.ext locked rfl
      rw [same]
      refine ⟨view, sees, ?_⟩
      simp only [Bool.false_eq_true, if_false]
      rw [holdingLock_apply, shape]
      cases held with
      | none => exact ends
      | some lockPath =>
          dsimp only
          rw [show (release lockPath _).2.report = _ from within_sameReport_release lockPath _]
          exact ends

/-- A repairing check that takes the lock of an empty store. -/
theorem check_in_order_of_empty_store :
    let store : Store := ⟨ascii "/s"⟩
    let session : Session := { files := { entries := [([ascii "s"], .directory)] } }
    let missing : FoundPointer := { oid := Digest.nameOf (ascii "content"), size := 7 }
    let source : ScanSource := ⟨[.listed [.pointer missing] none], []⟩
    ∃ view : Nat → FileTree, (∀ index, (store.entered {} session).Sees (view index)) ∧
      let judgements := source.judgements {} (store.entered {} session)
        fun index => store.judge (view index)
      let passed := passes {} source (store.objectsPass source 1) (store.entered {} session)
      let result := store.check {} source session
      store.EndsAsJudged {} judgements passed result.1 result.2.report :=
  (check_in_order _ _ _ (Int.le_refl 1) (.inr ⟨some (ascii "/s/fsck.lock"), by decide⟩)).2

end Store

end StoreAudit
