import StoreAudit.Proofs.Check.Account
import StoreAudit.Proofs.Check.InOrder
import StoreAudit.Proofs.Scan.Staged
import StoreAudit.Proofs.Text.Lines

/-!
# What a check prints

A check prints a line for each finding, and one more when nothing was found or objects are moved.
The line of a finding quotes names and paths as they are, and a path may hold line separators. So
the lines of the output are the lines printed only if no quoted text holds a separator, and a path
that holds the line of a clean check puts it among the lines of one that is not
(`Store.check_forged_iff`).
-/

namespace StoreAudit

open Audit Bytes

/-- The line of a clean check between line separators. -/
def forgedLine : Bytes := Ascii.newline :: (Store.okLine ++ [Ascii.newline])

/-- The text holds the line of a clean check between line separators. -/
def Forges (text : Bytes) : Prop := forgedLine <:+: text

section Forges

variable {first second : Bytes}

private theorem forges_append_of_plain (plain : Ascii.newline ∉ first) :
    Forges (first ++ second) ↔ Forges second :=
  infix_append_of_head rfl plain

private theorem forges_plain_append (plain : Ascii.newline ∉ second) :
    Forges (first ++ second) ↔ Forges first := by
  have last : forgedLine.getLast? = some Ascii.newline := by decide
  exact infix_append_of_getLast last plain

private theorem forges_append_cons {byte : UInt8} (absent : byte ∉ forgedLine) :
    Forges (first ++ byte :: second) ↔ Forges first ∨ Forges second :=
  infix_append_cons absent

private theorem not_forges_of_plain (plain : Ascii.newline ∉ first) :
    ¬ Forges (first ++ [Ascii.newline]) := by
  rw [forges_append_of_plain plain]
  intro inside
  exact absurd inside.length_le (by decide)

/-- The line of a clean check is among the lines of a text that does not begin like it only if it
stands between two separators. -/
theorem okLine_mem_split_iff
    (apart : (first ++ [Ascii.newline]).head? ≠ Store.okLine.head?) :
    Store.okLine ∈ split Ascii.newline (first ++ [Ascii.newline]) ↔
      Forges (first ++ [Ascii.newline]) := by
  have whole : Ascii.newline ∉ Store.okLine := by decide
  obtain ⟨start, parts, shape, -, starts, others⟩ :=
    split_append_singleton_eq_cons Ascii.newline first
  have differs : Store.okLine ≠ start := by
    rintro rfl
    obtain ⟨more, same⟩ := starts
    rw [← same] at apart
    exact apart rfl
  rw [shape, List.mem_cons, or_iff_right differs, others, and_iff_right whole]
  rfl

end Forges

namespace Finding

/-- The texts that the line of a finding quotes. -/
def quotes : Finding → Bytes × Bytes
  | corruptObject name oid | openError name oid _ => (name, oid)
  | nonCanonicalPointer oid blobOid => (oid, blobOid)
  | unexpectedGitObject path treeOid => (path, treeOid)

/-- What stands before the quoted texts. -/
def lead : Finding → Bytes
  | corruptObject _ _ => ascii "objects: corruptObject: "
  | openError _ _ _ => ascii "objects: openError: "
  | nonCanonicalPointer _ _ => ascii "pointer: nonCanonicalPointer: Pointer for "
  | unexpectedGitObject _ _ => ascii "pointer: unexpectedGitObject: \""

/-- What stands between the quoted texts, up to the bracket and after it. -/
def between : Finding → Bytes × Bytes
  | corruptObject _ _ | openError _ _ _ => (ascii " ", [])
  | nonCanonicalPointer _ _ => (ascii " ", ascii "blob ")
  | unexpectedGitObject _ _ => (ascii "\" ", ascii "treeish ")

/-- What stands after the bracket behind the quoted texts. -/
def rest : Finding → Bytes
  | corruptObject _ _ => ascii " is corrupt"
  | openError _ _ reason => ascii " could not be checked: " ++ reason
  | nonCanonicalPointer _ _ => ascii " was not canonical"
  | unexpectedGitObject _ _ => ascii " should have been a pointer but was not"

/-- The opening bracket. -/
abbrev opening : UInt8 := 40

/-- The closing bracket. -/
abbrev closing : UInt8 := 41

private theorem line_eq (finding : Finding) :
    finding.line = finding.lead ++ ((finding.quotes.1 ++ finding.between.1) ++ opening ::
      (finding.between.2 ++ (finding.quotes.2 ++ closing :: finding.rest))) := by
  cases finding <;> simp [line, message, lead, between, rest, quotes, isObjectFinding, kindName] <;>
    rfl

private theorem head?_line (finding : Finding) :
    (finding.line ++ [Ascii.newline]).head? =
      some (if finding.isObjectFinding then 111 else 112) := by
  cases finding <;> rfl

private theorem newline_notMem_lead (finding : Finding) : Ascii.newline ∉ finding.lead := by
  cases finding <;> (rw [lead]; decide)

private theorem newline_notMem_between (finding : Finding) :
    Ascii.newline ∉ finding.between.1 ∧ Ascii.newline ∉ finding.between.2 := by
  cases finding <;> (rw [between]; decide)

/-- What is said of the quoted texts is one line. -/
def Plain (finding : Finding) : Prop := Ascii.newline ∉ finding.rest

/-- No quoted text breaks the line. -/
def QuotesLines (finding : Finding) : Prop :=
  Ascii.newline ∉ finding.quotes.1 ∧ Ascii.newline ∉ finding.quotes.2

private theorem newline_notMem_line {finding : Finding} (plain : finding.Plain) :
    Ascii.newline ∉ finding.line ↔ finding.QuotesLines := by
  obtain ⟨before, after⟩ := finding.newline_notMem_between
  have lead := finding.newline_notMem_lead
  have opens : Ascii.newline ≠ opening := by decide
  have closes : Ascii.newline ≠ closing := by decide
  rw [Plain] at plain
  simp only [line_eq, QuotesLines, List.mem_append, List.mem_cons, lead, before, after, plain,
    opens, closes, false_or, or_false, not_or]

/-- Only what is quoted can hold the line, since it holds no brackets and no text that is printed
besides holds line separators. -/
theorem forges_line_iff {finding : Finding} (plain : finding.Plain) :
    Forges (finding.line ++ [Ascii.newline]) ↔
      Forges finding.quotes.1 ∨ Forges finding.quotes.2 := by
  obtain ⟨before, after⟩ := finding.newline_notMem_between
  have shape : finding.line ++ [Ascii.newline] =
      finding.lead ++ ((finding.quotes.1 ++ finding.between.1) ++ opening ::
        (finding.between.2 ++ (finding.quotes.2 ++ closing ::
          (finding.rest ++ [Ascii.newline])))) := by
    simp [line_eq]
  rw [shape, forges_append_of_plain finding.newline_notMem_lead, forges_append_cons (by decide),
    forges_plain_append before, forges_append_of_plain after, forges_append_cons (by decide)]
  exact or_congr_right (or_iff_left (not_forges_of_plain plain))

private theorem okLine_mem_split_line_iff {finding : Finding} (plain : finding.Plain) :
    Store.okLine ∈ split Ascii.newline (finding.line ++ [Ascii.newline]) ↔
      Forges finding.quotes.1 ∨ Forges finding.quotes.2 := by
  rw [okLine_mem_split_iff, forges_line_iff plain]
  rw [head?_line]
  cases finding.isObjectFinding <;> decide

end Finding

/-- Why a file cannot be opened is said in one line. -/
theorem newline_notMem_text_of_openForReading {files : FileTree} {path : Bytes} {offset : Nat}
    {errno : Errno} (failed : files.openForReading path offset = .error errno) :
    Ascii.newline ∉ errno.text := by
  have plain : ∀ errno ∈ FileTree.walkErrors, Ascii.newline ∉ errno.text := by decide +kernel
  unfold FileTree.openForReading at failed
  split at failed
  · cases failed
  · rename_i looked
    cases failed
    exact plain _ (FileTree.mem_walkErrors_of_entryOf looked)

private theorem Finding.plain_of_judge {store : Store} {files : FileTree} {item : ScanItem}
    {finding : Finding} (judged : store.judge files item = .ok (some finding)) :
    finding.Plain := by
  cases item with
  | misplaced path treeOid => cases judged
  | pointer pointer =>
      rw [Store.judge_pointer] at judged
      cases named : store.objectPath pointer.oid with
      | error failure =>
          rw [named] at judged
          cases judged
      | ok path =>
          rw [named] at judged
          dsimp only at judged
          unfold FoundPointer.problemAt? FoundPointer.problemOf? at judged
          split at judged
          · rename_i failed
            split at judged
            · cases judged
            · cases judged
              rw [Plain, rest, List.mem_append, not_or]
              exact ⟨by decide, newline_notMem_text_of_openForReading failed⟩
          · split at judged
            · cases judged
            · split at judged
              · cases judged
              · cases judged
                rw [Plain, rest]
                decide

private theorem ScanItem.plain_of_problem? {item : ScanItem} {finding : Finding}
    (found : item.problem? = some finding) : finding.Plain := by
  cases item with
  | misplaced path treeOid =>
      cases found
      rw [Finding.Plain, Finding.rest]
      decide
  | pointer pointer =>
      rw [problem?] at found
      split at found
      · cases found
      · cases found
        rw [Finding.Plain, Finding.rest]
        decide

/-- The later session has some more findings, whose reasons are one line each. -/
def Session.Tells (before after : Session) : Prop :=
  ∃ findings : List Finding, (∀ finding ∈ findings, finding.Plain) ∧
    after.report = findings.foldl Report.add before.report

instance : IsPreorder Session Session.Tells where
  refl _ := ⟨[], by simp, rfl⟩
  trans _ _ _ first second := by
    obtain ⟨findings, plain, reported⟩ := first
    obtain ⟨more, plainMore, reportedLater⟩ := second
    refine ⟨findings ++ more, ?_, by rw [List.foldl_append, ← reported, reportedLater]⟩
    exact fun finding member => (List.mem_append.mp member).elim (plain _) (plainMore _)

private theorem Session.tells_of_same {before after : Session} (same : after.report = before.report)
    : before.Tells after :=
  ⟨[], by simp, same⟩

private theorem Session.tells_report {finding : Finding} (plain : finding.Plain) (session : Session)
    : session.Tells (Audit.report finding session).2 :=
  ⟨[finding], by simpa using plain, report_report finding session⟩

private theorem Session.tells_of_accords {session : Session}
    {result : Except Failure Unit × Session}
    {judgement : Judgement} (accords : Accords session result [judgement])
    (plain : ∀ finding, judgement = .ok (some finding) → finding.Plain) :
    session.Tells result.2 := by
  refine ⟨_, fun _ member => plain _ ?_, accords.report⟩
  exact (List.mem_singleton.mp (Judgement.mem_of_mem_findings member)).symm

private theorem Feed.tells_next (feed : Feed) : Within Session.Tells feed.next :=
  fun session => Session.tells_of_same (feed.scanning_next.within session).report

private theorem Feed.tells_forEach {visit : ScanItem → Audit Unit}
    (visits : ∀ item, Within Session.Tells (visit item)) (feed : Feed) :
    Within Session.Tells (feed.forEach visit) := by
  unfold forEach
  generalize feed.bound + 1 = count
  induction count generalizing feed with
  | zero => exact within_pure ()
  | succ count ih =>
      refine .bind feed.tells_next fun found => ?_
      rcases found with _ | ⟨item, rest⟩
      · exact within_pure ()
      · exact .bind (visits item) fun _ => ih rest

private theorem Store.tells_visitObject (store : Store) (item : ScanItem) :
    Within Session.Tells (store.visitObject item) := by
  intro session
  obtain ⟨-, files, -, accords⟩ := store.visitObject_accords item session
  exact Session.tells_of_accords accords fun _ => Finding.plain_of_judge

private theorem ScanItem.tells_visit (item : ScanItem) : Within Session.Tells item.visit := by
  intro session
  refine Session.tells_of_accords (item.visit_accords session).2 fun finding found => ?_
  exact plain_of_problem? (Except.ok.inj found)

namespace Pool

/-- The findings that workers hold or have reported since a session have reasons of one line. -/
structure Told (start : Session) (pool : Pool) (session : Session) : Prop where
  held : ∀ finding ∈ pool.held, finding.Plain
  reported : start.Tells session

variable {start session after : Session} {pool next : Pool} {thread : PoolThread}
  {event : Option (QueueEvent FoundPointer)}

/-- A worker that changes has what the others have and what it gets. -/
theorem held_assign_of {index : Nat} {old state : WorkerState}
    (there : pool.workers[index]? = some old) {finding : Finding}
    (member : finding ∈ (pool.assign index state).held) :
    finding ∈ pool.held ∨ finding ∈ state.held := by
  have change := perm_flatMap_set WorkerState.held there state
  exact List.mem_append.mp (change.subset (List.mem_append_left _ member))

private theorem Told.assign (told : Told start pool session) {index : Nat} {old state : WorkerState}
    (there : pool.workers[index]? = some old) (plain : ∀ finding ∈ state.held, finding.Plain)
    (tells : session.Tells after) : Told start (pool.assign index state) after :=
  ⟨fun _ member => (held_assign_of there member).elim (told.held _) (plain _),
    IsTrans.trans _ _ _ told.reported tells⟩

/-- What a worker holds is held by the pool. -/
theorem Told.plain (told : Told start pool session) {index : Nat} {worker : WorkerState}
    (there : pool.workers[index]? = some worker) : ∀ finding ∈ worker.held, finding.Plain :=
  fun finding member => told.held finding
    (List.mem_flatMap.mpr ⟨worker, List.mem_of_getElem? there, member⟩)

private theorem Told.keep (told : Told start pool session) (held : next.held = pool.held)
    (tells : session.Tells after) : Told start next after :=
  ⟨held ▸ told.held, IsTrans.trans _ _ _ told.reported tells⟩

private theorem tells_of_checkObject {store : Store} {pointer : FoundPointer}
    {outcome : Except Failure (Option Finding)}
    (checked : store.checkObject pointer session = (outcome, after)) :
    session.Tells after ∧ ∀ finding, outcome = .ok (some finding) → finding.Plain := by
  obtain ⟨files, reached, -, -, report, same⟩ := store.checkObject_apply pointer session
  obtain ⟨rfl, rfl⟩ := Prod.mk.inj (same.symm.trans checked)
  exact ⟨Session.tells_of_same report, fun _ => Finding.plain_of_judge⟩

private theorem Told.move (told : Told start pool session)
    (move : Move pool session thread event next after) : Told start next after := by
  have quiet : session.Tells session := refl session
  have nothing : ∀ finding ∈ ([] : List Finding), finding.Plain := by simp
  cases move with
  | rests _ => exact told
  | givesUp _ _ | awaitsRoom _ _ => exact told.keep rfl quiet
  | feedFails _ asked | feedEnds _ asked | delivers _ asked | misdelivers _ asked =>
      have tells := pool.feed.tells_next session
      rw [asked] at tells
      exact told.keep rfl tells
  | @pushes woken _ queue _ _ =>
      have pushed : Told start { pool with queue, scanner := .pulling } session :=
        told.keep rfl quiet
      obtain ⟨same, -⟩ | ⟨index, there, same⟩ := wakeWorker_cases _ woken <;> rw [same]
      · exact pushed
      · exact pushed.assign there nothing quiet
  | failsScan _ | closes _ =>
      exact told.keep (flatMap_wake _ WorkerState.held_wake pool.workers) quiet
  | @pops index pointer queue there _ =>
      have popped : Told start { pool with queue, scanner := pool.scanner.wake } session :=
        told.keep rfl quiet
      exact popped.assign there nothing quiet
  | retires there _ | awaitsWork there _ | drops there _ => exact told.assign there nothing quiet
  | @failsCheck index failure there =>
      have failed : Told start (pool.fail (classify failure)) session :=
        told.keep (flatMap_wake _ WorkerState.held_wake pool.workers) quiet
      exact failed.assign (pool.getElem?_fail _ there rfl) nothing quiet
  | checkFails there checked | findsNothing there checked =>
      exact told.assign there nothing (tells_of_checkObject checked).1
  | finds there checked =>
      obtain ⟨tells, plain⟩ := tells_of_checkObject checked
      refine told.assign there (fun finding member => ?_) tells
      rw [List.mem_singleton.mp member]
      exact plain _ rfl
  | keeps there _ =>
      exact told.assign there (fun finding member => told.plain there finding member) quiet
  | reports there =>
      have plain := told.plain there _ (List.mem_singleton_self _)
      exact told.assign there nothing (session.tells_report plain)

end Pool

namespace Store

variable (store : Store) (options : CheckOptions) (source : ScanSource)

private theorem tells_objectsPassFollowing (schedule : List PoolThread) (jobs : Int) :
    Within Session.Tells (store.objectsPassFollowing source schedule jobs) := by
  have begins : Within Session.Tells (begin .objects) := fun _ => Session.tells_of_same rfl
  have traces (line : Bytes) : Within Session.Tells (trace line) :=
    fun _ => Session.tells_of_same rfl
  refine .bind begins.lift fun _ => ?_
  dsimp only
  split
  · exact Feed.tells_forEach store.tells_visitObject source.objects
  refine .bind (traces _).lift fun _ => .bind (Within.lift fun session => ?_) fun last => ?_
  · obtain ⟨events, course⟩ := Pool.course_follow schedule
      (Pool.start store source.objects (Pool.workersFor jobs)) session
    have told : Pool.Told session (Pool.start store source.objects (Pool.workersFor jobs))
        session := by
      refine ⟨fun finding member => ?_, refl session⟩
      obtain ⟨worker, among, holds⟩ := List.mem_flatMap.mp member
      rw [List.eq_of_mem_replicate among] at holds
      cases holds
    exact (course.keeps (fun {_ _ _ _ _ _} told move => told.move move) told).reported
  · cases last.queue.failure with
    | some failure => exact within_throw failure
    | none => exact within_pure ()

private theorem tells_passesFollowing (schedule : List PoolThread) :
    Within Session.Tells (store.passesFollowing options source schedule) := by
  have begins : Within Session.Tells (begin .pointers) := fun _ => Session.tells_of_same rfl
  have objects := store.tells_objectsPassFollowing source schedule options.jobs
  have pointers : Within Session.Tells (pointersPass source) :=
    .bind begins.lift fun _ => Feed.tells_forEach ScanItem.tells_visit source.pointers
  unfold passesFollowing passes
  cases options.wantsObjects with
  | true =>
      refine .bind objects fun _ => ?_
      cases options.wantsPointers with
      | true => exact pointers
      | false => exact within_pure ()
  | false =>
      cases options.wantsPointers with
      | true => exact pointers
      | false => exact within_pure ()

/-- The lines that a check prints. -/
def printed (findings : List Finding) : List Bytes :=
  findings.map Finding.line ++
    if findings = [] then [okLine]
    else if repairs options findings then [store.repairLine] else []

/-- A check that comes to a verdict has printed a line for each finding and what is left to say, and
the verdict tells whether there are findings. -/
structure Prints (verdict : Verdict) (report : Report) : Prop where
  text : report.text = Bytes.ofLines (store.printed options report.findings)
  status : verdict.status = 0 ↔ report.findings = []
  plain : ∀ finding ∈ report.findings, finding.Plain

variable {store options source}

private theorem ofLines_printed (findings : List Finding) :
    Bytes.ofLines (store.printed options findings) =
      Bytes.ofLines (findings.map Finding.line) ++ store.closing options findings := by
  unfold printed closing
  by_cases clean : findings = []
  · simp [clean, Bytes.ofLines]
  · cases repairs options findings <;> simp [clean, Bytes.ofLines]

private theorem concludeAfter_prints {passes : Audit Unit} {session last : Session}
    {verdict : Verdict} (tells : Within Session.Tells passes)
    (concluded : store.concludeAfter options passes session = (.ok verdict, last)) :
    store.Prints options verdict last.report := by
  rw [concludeAfter_apply] at concluded
  rcases passed : passes (renewed options session) with ⟨failure | ⟨⟩, reached⟩ <;>
    rw [passed] at concluded
  · cases concluded
  have told := tells (renewed options session)
  rw [passed] at told
  obtain ⟨findings, plain, reported⟩ := told
  have settles := store.conclude_settles reported
  dsimp only at concluded settles
  rw [concluded] at settles
  obtain ⟨rfl, settled, text⟩ := settles
  refine ⟨text.trans (ofLines_printed _).symm, ?_, plain⟩
  rcases settled with ⟨-, other, same, clean, -⟩ | ⟨-, failure, -, impossible⟩
  · cases same
    exact clean
  · cases impossible

private theorem checkFollowing_prints {schedule : List PoolThread} {session last : Session}
    {verdict : Verdict}
    (returned : store.checkFollowing options source schedule session = (.ok verdict, last)) :
    store.Prints options verdict last.report := by
  have tells := store.tells_passesFollowing options source schedule
  have enters := store.checkBy_enters options source
    (store.objectsPassFollowing source schedule options.jobs) session
  unfold checkFollowing at returned
  rw [returned] at enters
  generalize result : (Except.ok verdict, last) = ending at enters
  cases enters with
  | dryRun _ | noStore _ _ => exact concludeAfter_prints tells result.symm
  | refused _ _ _ => cases result
  | locked _ _ _ =>
      obtain ⟨concluded, rfl⟩ := Prod.mk.inj result
      rw [show (release store.lockPath _).2.report = _ from
        within_sameReport_release store.lockPath _]
      exact concludeAfter_prints tells (Prod.ext concluded.symm rfl)

private theorem split_printed (findings : List Finding) :
    split Ascii.newline (Bytes.ofLines (store.printed options findings)) =
      (store.printed options findings).flatMap fun line =>
        split Ascii.newline (line ++ [Ascii.newline]) :=
  split_flatMap_eq Ascii.newline _

private theorem mem_printed_iff {findings : List Finding} {line : Bytes} :
    line ∈ store.printed options findings ↔
      (∃ finding ∈ findings, finding.line = line) ∨ (findings = [] ∧ line = okLine) ∨
        repairs options findings = true ∧ line = store.repairLine := by
  rw [printed, List.mem_append, List.mem_map]
  apply or_congr_right
  by_cases clean : findings = []
  · simp [clean, repairs]
  · cases repairs options findings <;> simp [clean]

private theorem newline_notMem_repairLine :
    Ascii.newline ∉ store.repairLine ↔ Ascii.newline ∉ store.root := by
  have lead : Ascii.newline ∉ ascii "objects: repair: moving corrupt objects to " := by decide
  have below : Ascii.newline ∉ ascii "/bad" := by decide
  rw [repairLine, quarantine]
  simp only [List.mem_append, lead, below, false_or, or_false]

private theorem okLine_mem_split_repairLine_iff :
    okLine ∈ split Ascii.newline (store.repairLine ++ [Ascii.newline]) ↔ Forges store.root := by
  have lead : Ascii.newline ∉ ascii "objects: repair: moving corrupt objects to " := by decide
  have below : Ascii.newline ∉ ascii "bad" := by decide
  have shape : store.repairLine ++ [Ascii.newline] =
      ascii "objects: repair: moving corrupt objects to " ++
        (store.root ++ Ascii.slash :: (ascii "bad" ++ [Ascii.newline])) := by
    rw [repairLine, quarantine, List.append_assoc, List.append_assoc]
    rfl
  have apart : (store.repairLine ++ [Ascii.newline]).head? ≠ okLine.head? := by
    have head : (store.repairLine ++ [Ascii.newline]).head? = some 111 := by
      rw [shape]
      rfl
    rw [head]
    decide
  rw [okLine_mem_split_iff apart, shape, forges_append_of_plain lead,
    forges_append_cons (by decide)]
  exact or_iff_left (not_forges_of_plain below)

/-- **What a check prints can be forged.** A check that returns has printed a line for each of its
findings, and one more if there are none or if objects are moved; it returns zero if and only if
there are no findings. These lines are the lines of its output if and only if no text that a finding
quotes holds a line separator, nor the path of the store if it is printed. And the line of a clean
check is among the lines of its output if and only if the check returns zero, or a text that a
finding quotes, or the path of the store if it is printed, holds that line between separators. -/
theorem check_forged_iff {session last : Session} {verdict : Verdict}
    (returned : store.check options source session = (.ok verdict, last) ∨
      ∃ schedule, store.checkFollowing options source schedule session = (.ok verdict, last)) :
    let findings := last.report.findings
    let lines := split Ascii.newline last.report.text
    last.report.text = Bytes.ofLines (store.printed options findings) ∧
      (verdict.status = 0 ↔ findings = []) ∧
      (lines = store.printed options findings ↔
        (∀ finding ∈ findings, finding.QuotesLines) ∧
          (repairs options findings = true → Ascii.newline ∉ store.root)) ∧
      (okLine ∈ lines ↔ verdict.status = 0 ∨
        (∃ finding ∈ findings, Forges finding.quotes.1 ∨ Forges finding.quotes.2) ∨
        repairs options findings = true ∧ Forges store.root) := by
  obtain ⟨schedule, followed⟩ : ∃ schedule,
      store.checkFollowing options source schedule session = (.ok verdict, last) := by
    rcases returned with checked | followed
    · obtain ⟨schedule, same⟩ := store.check_eq_checkFollowing options source session
      exact ⟨schedule, same.symm.trans checked⟩
    · exact followed
  have ⟨text, status, plain⟩ := checkFollowing_prints followed
  dsimp only
  rw [text, split_printed]
  refine ⟨rfl, status, ?_, ?_⟩
  · rw [← split_printed, Bytes.ofLines, split_flatMap_eq_iff]
    constructor
    · intro whole
      refine ⟨fun finding member => ?_, fun repaired => ?_⟩
      · apply (Finding.newline_notMem_line (plain finding member)).mp
        exact whole _ (mem_printed_iff.mpr (.inl ⟨finding, member, rfl⟩))
      · apply newline_notMem_repairLine.mp
        exact whole _ (mem_printed_iff.mpr (.inr (.inr ⟨repaired, rfl⟩)))
    · rintro ⟨quoted, root⟩ line member
      rcases mem_printed_iff.mp member with ⟨finding, among, rfl⟩ | ⟨-, rfl⟩ | ⟨repaired, rfl⟩
      · exact (Finding.newline_notMem_line (plain finding among)).mpr (quoted finding among)
      · decide
      · exact newline_notMem_repairLine.mpr (root repaired)
  · rw [List.mem_flatMap, status]
    constructor
    · rintro ⟨line, member, inside⟩
      rcases mem_printed_iff.mp member with ⟨finding, among, rfl⟩ | ⟨clean, -⟩ | ⟨repaired, rfl⟩
      · have forged := (Finding.okLine_mem_split_line_iff (plain finding among)).mp inside
        exact .inr (.inl ⟨finding, among, forged⟩)
      · exact .inl clean
      · exact .inr (.inr ⟨repaired, okLine_mem_split_repairLine_iff.mp inside⟩)
    · rintro (clean | ⟨finding, among, forged⟩ | ⟨repaired, forged⟩)
      · exact ⟨okLine, mem_printed_iff.mpr (.inr (.inl ⟨clean, rfl⟩)), by decide⟩
      · exact ⟨_, mem_printed_iff.mpr (.inl ⟨finding, among, rfl⟩),
          (Finding.okLine_mem_split_line_iff (plain finding among)).mpr forged⟩
      · exact ⟨_, mem_printed_iff.mpr (.inr (.inr ⟨repaired, rfl⟩)),
          okLine_mem_split_repairLine_iff.mpr forged⟩

/-- A file at a path in two lines that should be a pointer. -/
def brokenFinding : Finding := .unexpectedGitObject (ascii "a\nb") (ascii "t1")

/-- A path in two lines breaks the line of its finding and forges nothing. -/
theorem check_forged_iff_of_path_in_two_lines :
    let source : ScanSource := ⟨[], [.listed [.misplaced (ascii "a\nb") (ascii "t1")] none]⟩
    let options : CheckOptions := { dryRun := true, pointers := true }
    ∃ last, Store.check ⟨ascii "lfs"⟩ options source {} = (.ok .corrupt, last) ∧
      split Ascii.newline last.report.text ≠
        Store.printed ⟨ascii "lfs"⟩ options last.report.findings ∧
      okLine ∉ split Ascii.newline last.report.text := by
  intro source options
  generalize result : Store.check ⟨ascii "lfs"⟩ options source {} = ending
  obtain ⟨outcome, last⟩ := ending
  have verdict : outcome = .ok .corrupt := by
    rw [show outcome = _ from (congrArg Prod.fst result).symm]
    decide +kernel
  have found : last.report.findings = [brokenFinding] := by
    rw [show last = _ from (congrArg Prod.snd result).symm]
    decide +kernel
  subst verdict
  obtain ⟨-, -, whole, forged⟩ := check_forged_iff (.inl result)
  rw [found] at whole forged
  refine ⟨last, rfl, fun same => ?_, fun member => ?_⟩
  · rw [found] at same
    exact ((whole.mp same).1 brokenFinding List.mem_cons_self).1 (by decide)
  · rcases forged.mp member with impossible | ⟨finding, among, holds⟩ | ⟨-, holds⟩
    · cases impossible
    · rw [List.mem_singleton.mp among] at holds
      rcases holds with holds | holds
      · exact absurd holds.length_le (by decide)
      · exact absurd holds.length_le (by decide)
    · exact absurd holds.length_le (by decide)

/-- A staged pointer whose path holds the line of a clean check. -/
def forgingRepository : Repository where
  directory := []
  transcript :=
    { calls := [{ arguments := StagedScan.arguments (ascii "c1")
                  output := StagedEntry.text
                    { header :=
                        ⟨ascii "000000", ascii "100755", ascii "0000", ascii "a1", ascii "A"⟩
                      path := ascii "a" ++ forgedLine ++ ascii "b" } }]
      objects := StagedScan.sampleObjects.map StoredObject.entry }

/-- Its object is missing, and yet the line of a clean check is printed. -/
theorem check_prints_forged_line :
    let source : ScanSource := ⟨[.staged forgingRepository (ascii "c1") {}], []⟩
    let result := Store.check ⟨ascii "lfs"⟩ { dryRun := true, objects := true } source {}
    result.1 = .ok .corrupt ∧ result.2.report.findings.length = 1 ∧
      okLine ∈ split Ascii.newline result.2.report.text ∧
      (split Ascii.newline result.2.report.text).length = 3 := by
  decide +kernel

end Store

end StoreAudit
