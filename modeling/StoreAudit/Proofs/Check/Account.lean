import StoreAudit.Proofs.Check.Progress
import StoreAudit.Proofs.Check.Schedule
import StoreAudit.Proofs.Check.Steady

/-!
# The account of a pool

As long as its queue has not failed and no thread is about to fail it, a pool has lost no item and
doubled none: what was checked, what is on its way and what the feed still has are the items of the
feed, and what was reported or is held to be reported is what was found, if no object is the open
journal file (`Pool.Balanced`). Whatever happens, nothing comes to the threads that the feed did not
have (`Pool.Supplied`), and the failure of a queue is that of the feed or of one of its items
(`Store.Causes`). All this holds after every schedule.
-/

namespace StoreAudit

open Audit

/-- The pointers that a scanner has and did not hand on. -/
def ScannerState.hand : ScannerState → List FoundPointer
  | pushing pointer | asleep pointer => [pointer]
  | _ => []

/-- Whether a scanner is going to ask for more. -/
def ScannerState.scans : ScannerState → Bool
  | failing _ | closing | stopped => false
  | _ => true

/-- The pointers that a worker is about to check. -/
def WorkerState.hand : WorkerState → List FoundPointer
  | checking pointer => [pointer]
  | _ => []

/-- The findings that a worker has and did not report. -/
def WorkerState.held : WorkerState → List Finding
  | judging finding | reporting finding => [finding]
  | _ => []

/-- Waking leaves the scanner what it has in hand. -/
@[simp] theorem ScannerState.hand_wake (scanner : ScannerState) :
    scanner.wake.hand = scanner.hand := by
  cases scanner <;> rfl

/-- Waking does not end the scan. -/
@[simp] theorem ScannerState.scans_wake (scanner : ScannerState) :
    scanner.wake.scans = scanner.scans := by
  cases scanner <;> rfl

/-- Waking leaves a worker what it has in hand. -/
@[simp] theorem WorkerState.hand_wake (worker : WorkerState) : worker.wake.hand = worker.hand := by
  cases worker <;> rfl

/-- Waking leaves a worker the item that it holds. -/
@[simp] theorem WorkerState.held_wake (worker : WorkerState) : worker.wake.held = worker.held := by
  cases worker <;> rfl

/-- What the workers have together after one of them has changed. -/
theorem perm_flatMap_set {α : Type} (part : WorkerState → List α) {workers : List WorkerState}
    {index : Nat} {old : WorkerState} (there : workers[index]? = some old) (state : WorkerState) :
    ((workers.set index state).flatMap part ++ part old).Perm
      (workers.flatMap part ++ part state) := by
  induction workers generalizing index with
  | nil => cases there
  | cons first rest ih =>
      cases index with
      | zero =>
          obtain rfl : first = old := Option.some.inj there
          rw [List.set_cons_zero, List.flatMap_cons, List.flatMap_cons]
          exact (List.perm_append_comm.trans (by simpa using List.perm_append_comm.append_left _))
      | succ index =>
          rw [List.set_cons_succ, List.flatMap_cons, List.flatMap_cons, List.append_assoc,
            List.append_assoc]
          exact (ih there).append_left _

namespace Pool

variable {pool next : Pool} {session after : Session} {thread : PoolThread}
  {event : Option (QueueEvent FoundPointer)}

/-- A thread is about to fail the queue. -/
def Throws (pool : Pool) (failure : Failure) : Prop :=
  pool.scanner = .failing failure ∨ .failing failure ∈ pool.workers

/-- The pointers that were delivered and not checked yet. -/
def pending (pool : Pool) : List FoundPointer :=
  pool.scanner.hand ++ (pool.queue.items ++ pool.workers.flatMap WorkerState.hand)

/-- The findings that are not reported yet. -/
def held (pool : Pool) : List Finding := pool.workers.flatMap WorkerState.held

private theorem pending_assign {index : Nat} {old state : WorkerState}
    (there : pool.workers[index]? = some old) (same : state.hand = old.hand) :
    (pool.assign index state).pending.Perm pool.pending := by
  have change := perm_flatMap_set WorkerState.hand there state
  rw [same, List.perm_append_right_iff] at change
  exact (change.append_left _).append_left _

/-- A worker that goes on has no other pointer than one of the pool, or the one it gets. -/
theorem mem_pending_assign {index : Nat} {old state : WorkerState} {pointer : FoundPointer}
    (there : pool.workers[index]? = some old)
    (member : pointer ∈ (pool.assign index state).pending) :
    pointer ∈ pool.pending ∨ pointer ∈ state.hand := by
  have change := perm_flatMap_set WorkerState.hand there state
  simp only [pending, assign, List.mem_append] at member ⊢
  rcases member with scanned | queued | taken
  · exact .inl (.inl scanned)
  · exact .inl (.inr (.inl queued))
  · rcases List.mem_append.mp (change.subset (List.mem_append_left _ taken)) with before | gained
    · exact .inl (.inr (.inr before))
    · exact .inr gained

private theorem held_assign {index : Nat} {old state : WorkerState}
    (there : pool.workers[index]? = some old) (same : state.held = old.held) :
    (pool.assign index state).held.Perm pool.held := by
  have change := perm_flatMap_set WorkerState.held there state
  rw [same, List.perm_append_right_iff] at change
  exact change

/-- Waking the workers leaves what they have together. -/
theorem flatMap_wake {α : Type} (part : WorkerState → List α)
    (same : ∀ worker : WorkerState, part worker.wake = part worker) (workers : List WorkerState) :
    (workers.map WorkerState.wake).flatMap part = workers.flatMap part := by
  rw [List.flatMap_map]
  exact congrArg (List.flatMap · workers) (funext same)

end Pool

/-- What the check of an item adds to the findings. -/
def Store.due (store : Store) (files : FileTree) (item : ScanItem) : List Finding :=
  Judgement.findings [store.judge files item]

/-- The paths that the check of an item opens. -/
def Store.opens (store : Store) : ScanItem → List Bytes
  | .pointer pointer => (store.objectPath pointer.oid).toOption.toList
  | .misplaced _ _ => []

/-- A look at an object opens what is to be opened for it. -/
theorem Store.opened_checkObject (store : Store) (pointer : FoundPointer) (session : Session) :
    (store.checkObject pointer session).2.opened =
      session.opened ++ store.opens (.pointer pointer) := by
  rw [checkObject, checkObjectBy, opens]
  cases store.objectPath pointer.oid with
  | error failure => exact (List.append_nil _).symm
  | ok path =>
      let traced := (trace (pointer.examination path) session).2
      change ((liftM (pointer.problemAt? traced.files path) : Audit (Option Finding))
        { traced with opened := traced.opened ++ [path] }).2.opened = _
      rw [liftExcept_apply]
      rfl

/-- What makes a pool fail: the feed, an item that is no pointer, or the check of an object. -/
inductive Store.Causes (store : Store) (files : FileTree) (contents : Feed.Contents) :
    Failure → Prop
  | feed {failure : Failure} : contents.failure = some failure →
      Causes store files contents (Pool.classify failure)
  | misplaced {path treeOid : Bytes} : .misplaced path treeOid ∈ contents.items →
      Causes store files contents (.unexpectedScanError path)
  | check {pointer : FoundPointer} {failure : Failure} : .pointer pointer ∈ contents.items →
      store.judge files (.pointer pointer) = .error failure →
      Causes store files contents failure

namespace Pool

variable {pool next : Pool} {session after : Session} {thread : PoolThread}
  {event : Option (QueueEvent FoundPointer)}

/-- What the feed of a pool has still to deliver. -/
inductive Remains (pool : Pool) (session : Session) : Feed.Contents → Prop
  | going {reference : Session} : pool.scanner.scans = true → session.Alike reference →
      Remains pool session (pool.feed.contents reference)
  | ended {rest : Feed.Contents} : pool.scanner.scans = false → rest.items = [] →
      rest.failure = none → session.Alike rest.after → Remains pool session rest

/-- Nothing was lost or doubled since a session: of what the feed had, some items were checked, some
are on their way and the others are still to come, and of what was found in the checked ones, some
is reported and the rest is held, if no object changes by records. Only objects of checked items
were opened. -/
structure Balanced (store : Store) (start : Session) (contents : Feed.Contents) (pool : Pool)
    (session : Session) (checked : List FoundPointer) (reported : List Finding) : Prop where
  items : ∃ rest, pool.Remains session rest ∧ rest.failure = contents.failure ∧
    rest.after = contents.after ∧
    contents.items.Perm ((checked ++ pool.pending).map .pointer ++ rest.items)
  judged : ∀ pointer ∈ checked, ∃ found, store.judge start.files (.pointer pointer) = .ok found
  findings : store.AvoidsJournal start contents.items →
    (checked.flatMap fun pointer => store.due start.files (.pointer pointer)).Perm
      (reported ++ pool.held)
  opened : session.opened =
    start.opened ++ checked.flatMap fun pointer => store.opens (.pointer pointer)
  report : session.report = reported.foldl Report.add start.report

/-- Nothing comes to the threads that the feed did not have, and it fails as it would have. -/
structure Supplied (contents : Feed.Contents) (pool : Pool) (session : Session) : Prop where
  pending : ∀ pointer ∈ pool.pending, .pointer pointer ∈ contents.items
  rest : pool.scanner.scans = true → ∃ reference, session.Alike reference ∧
    (pool.feed.contents reference).failure = contents.failure ∧
    ∀ item ∈ (pool.feed.contents reference).items, item ∈ contents.items

namespace Balanced

variable {store : Store} {start : Session} {contents : Feed.Contents} {checked : List FoundPointer}
  {reported : List Finding}

private theorem remains_alike {rest : Feed.Contents} (remains : pool.Remains session rest)
    (feed : next.feed = pool.feed) (scans : next.scanner.scans = pool.scanner.scans)
    (alike : after.Alike session) : next.Remains after rest := by
  cases remains with
  | going going same =>
      rw [← feed]
      exact .going (scans.trans going) (alike.trans same)
  | ended ended items failure last =>
      exact .ended (scans.trans ended) items failure (alike.trans last)

/-- Threads go on with what they have. -/
theorem handOn (balanced : Balanced store start contents pool session checked reported)
    (feed : next.feed = pool.feed) (scans : next.scanner.scans = pool.scanner.scans)
    (pending : next.pending.Perm pool.pending) (held : next.held.Perm pool.held)
    (alike : after.Alike session) (opened : after.opened = session.opened)
    (report : after.report = session.report) :
    Balanced store start contents next after checked reported where
  items := by
    obtain ⟨rest, remains, failure, last, items⟩ := balanced.items
    refine ⟨rest, remains_alike remains feed scans alike, failure, last, items.trans ?_⟩
    exact ((pending.symm.append_left checked).map ScanItem.pointer).append_right rest.items
  judged := balanced.judged
  findings avoids := (balanced.findings avoids).trans (held.symm.append_left reported)
  opened := opened.trans balanced.opened
  report := report.trans balanced.report

/-- What the scanner is told when it asks is what the contents of the feed say. -/
theorem ask (balanced : Balanced store start contents pool session checked reported)
    (place : pool.scanner = .pulling) {outcome : Except Failure (Option (ScanItem × Feed))}
    (asked : pool.feed.next session = (outcome, after)) :
    ∃ reference later, pool.feed.next reference = (outcome, later) ∧ after.Alike later ∧
      (pool.feed.contents reference).failure = contents.failure ∧
      (pool.feed.contents reference).after = contents.after ∧
      contents.items.Perm
        ((checked ++ pool.pending).map .pointer ++ (pool.feed.contents reference).items) ∧
      after.opened = session.opened ∧ after.report = session.report := by
  obtain ⟨rest, remains, failure, last, items⟩ := balanced.items
  have scans : pool.scanner.scans = true := by rw [place]; rfl
  cases remains with
  | ended ended =>
      rw [scans] at ended
      cases ended
  | @going reference _ alike =>
      obtain ⟨sameOutcome, sameAfter⟩ := pool.feed.scanning_next.alike session reference alike
      have scanned := pool.feed.scanning_next.within session
      rw [asked] at sameOutcome sameAfter scanned
      have again : pool.feed.next reference = (outcome, (pool.feed.next reference).2) :=
        Prod.ext sameOutcome.symm rfl
      exact ⟨reference, _, again, sameAfter, failure, last, items, scanned.opened, scanned.report⟩

/-- The scanner learns that there is nothing more. -/
theorem finish (balanced : Balanced store start contents pool session checked reported)
    (place : pool.scanner = .pulling) (asked : pool.feed.next session = (.ok none, after)) :
    Balanced store start contents { pool with scanner := .closing } after checked reported := by
  obtain ⟨reference, later, again, alike, failure, last, items, opened, report⟩ :=
    balanced.ask place asked
  have nothing : pool.scanner.hand = [] := by rw [place]; rfl
  rw [Feed.contents_of_end again] at failure last items
  rw [pending, nothing] at items
  exact {
    items := ⟨_, .ended rfl rfl rfl alike, failure, last, items⟩
    judged := balanced.judged
    findings := balanced.findings
    opened := opened.trans balanced.opened
    report := report.trans balanced.report }

/-- The scanner gets a pointer. -/
theorem receive (balanced : Balanced store start contents pool session checked reported)
    (place : pool.scanner = .pulling) {pointer : FoundPointer} {feed : Feed}
    (asked : pool.feed.next session = (.ok (some (.pointer pointer, feed)), after)) :
    Balanced store start contents { pool with feed, scanner := .pushing pointer } after checked
      reported := by
  obtain ⟨reference, later, again, alike, failure, last, items, opened, report⟩ :=
    balanced.ask place asked
  have nothing : pool.scanner.hand = [] := by rw [place]; rfl
  rw [Feed.contents_of_item again] at failure last items
  rw [pending, nothing] at items
  refine ⟨⟨feed.contents later, .going rfl alike, failure, last, items.trans ?_⟩, balanced.judged,
    balanced.findings, opened.trans balanced.opened, report.trans balanced.report⟩
  rw [List.perm_iff_count]
  intro item
  simp only [pending, ScannerState.hand, List.map_append, List.map_cons, List.map_nil,
    List.count_append, List.count_cons, List.count_nil]
  omega

/-- The scanner puts a pointer into the queue. -/
theorem push (balanced : Balanced store start contents pool session checked reported)
    {pointer : FoundPointer} {queue : WorkQueue FoundPointer}
    (place : pool.scanner = .pushing pointer) (accepted : pool.queue.push pointer = .accepted queue)
    (woken : Nat) :
    Balanced store start contents ({ pool with queue, scanner := .pulling }.wakeWorker woken)
      session checked reported := by
  obtain ⟨-, -, rfl⟩ := WorkQueue.push_eq_accepted accepted
  let pushed : Pool := { pool with
    queue := { pool.queue with items := pool.queue.items ++ [pointer] }
    scanner := .pulling }
  have through : Balanced store start contents pushed session checked reported := by
    refine balanced.handOn rfl (by rw [place]; rfl) ?_ (.refl _) (.refl _) rfl rfl
    rw [List.perm_iff_count]
    intro other
    simp only [pushed, pending, place, ScannerState.hand, List.count_append, List.nil_append]
    omega
  obtain ⟨same, -⟩ | ⟨index, there, same⟩ := pushed.wakeWorker_cases woken
  · rw [same]
    exact through
  · rw [same]
    exact through.handOn rfl rfl (pending_assign there rfl) (held_assign there rfl) (.refl _) rfl
      rfl

/-- A worker takes a pointer out of the queue. -/
theorem pop (balanced : Balanced store start contents pool session checked reported) {index : Nat}
    {pointer : FoundPointer} {queue : WorkQueue FoundPointer}
    (there : pool.workers[index]? = some .ready)
    (given : pool.queue.pop = .item pointer queue) :
    Balanced store start contents
      ({ pool with queue, scanner := pool.scanner.wake }.assign index (.checking pointer)) session
      checked reported := by
  obtain ⟨-, rest, items, rfl⟩ := WorkQueue.pop_eq_item given
  refine balanced.handOn rfl pool.scanner.scans_wake ?_ (held_assign there rfl) (.refl _) rfl rfl
  have change := List.perm_iff_count.mp
    (perm_flatMap_set WorkerState.hand there (.checking pointer))
  rw [List.perm_iff_count]
  intro other
  have counts := change other
  simp only [pending, assign, items, ScannerState.hand_wake, WorkerState.hand, List.append_nil,
    List.count_append, List.count_cons, List.count_nil] at counts ⊢
  omega

/-- A worker has checked its pointer. -/
theorem check (balanced : Balanced store start contents pool session checked reported) {index : Nat}
    {pointer : FoundPointer} {found : Option Finding} {state : WorkerState}
    (there : pool.workers[index]? = some (.checking pointer))
    (judged : ∃ found, store.judge start.files (.pointer pointer) = .ok found)
    (same : store.AvoidsJournal start contents.items →
      store.judge start.files (.pointer pointer) = .ok found)
    (free : state.hand = []) (holds : state.held = found.toList) (alike : after.Alike session)
    (opened : after.opened = session.opened ++ store.opens (.pointer pointer))
    (report : after.report = session.report) :
    Balanced store start contents (pool.assign index state) after (checked ++ [pointer])
      reported where
  items := by
    obtain ⟨rest, remains, failure, last, items⟩ := balanced.items
    refine ⟨rest, remains_alike remains rfl rfl alike, failure, last, items.trans ?_⟩
    have change := perm_flatMap_set WorkerState.hand there state
    have busy : (WorkerState.checking pointer).hand = [pointer] := rfl
    rw [free, busy, List.append_nil] at change
    refine .append_right _ (.map ScanItem.pointer (List.perm_iff_count.mpr fun other => ?_))
    have counts := List.perm_iff_count.mp change other
    simp only [pending, assign, List.count_append] at counts ⊢
    omega
  judged other member := by
    rcases List.mem_append.mp member with earlier | last
    · exact balanced.judged other earlier
    · rw [List.mem_singleton.mp last]
      exact judged
  findings avoids := by
    have change := perm_flatMap_set WorkerState.held there state
    have due : store.due start.files (.pointer pointer) = found.toList := by
      rw [Store.due, same avoids]
      exact List.append_nil _
    have nothing : (WorkerState.checking pointer).held = [] := rfl
    rw [nothing, List.append_nil, holds] at change
    rw [List.flatMap_append, List.flatMap_singleton, due]
    refine ((balanced.findings avoids).append_right _).trans ?_
    rw [List.append_assoc]
    exact change.symm.append_left reported
  opened := by
    rw [opened, balanced.opened, List.flatMap_append, List.flatMap_singleton, List.append_assoc]
  report := report.trans balanced.report

/-- A worker reports its finding. -/
theorem report_finding (balanced : Balanced store start contents pool session checked reported)
    {index : Nat} {finding : Finding} (there : pool.workers[index]? = some (.reporting finding)) :
    Balanced store start contents (pool.assign index .ready) (Audit.report finding session).2
      checked (reported ++ [finding]) where
  items := by
    obtain ⟨rest, remains, failure, last, items⟩ := balanced.items
    have same : (pool.assign index .ready).pending.Perm pool.pending := pending_assign there rfl
    refine ⟨rest, remains_alike remains rfl rfl (within_report finding session).alike, failure,
      last, items.trans ?_⟩
    exact ((same.symm.append_left checked).map ScanItem.pointer).append_right rest.items
  judged := balanced.judged
  findings avoids := by
    have change := perm_flatMap_set WorkerState.held there .ready
    have one : (WorkerState.reporting finding).held = [finding] := rfl
    have nothing : WorkerState.ready.held = [] := rfl
    rw [one, nothing, List.append_nil] at change
    rw [List.append_assoc]
    exact (balanced.findings avoids).trans
      ((change.symm.trans List.perm_append_comm).append_left reported)
  opened := balanced.opened
  report := by
    rw [report_report, balanced.report, List.foldl_append]
    rfl

end Balanced

namespace Supplied

variable {contents : Feed.Contents}

/-- A pointer that a worker checks is one of the feed. -/
theorem mem_items (supplied : Supplied contents pool session) {index : Nat} {pointer : FoundPointer}
    (there : pool.workers[index]? = some (.checking pointer)) :
    .pointer pointer ∈ contents.items := by
  have busy : pointer ∈ pool.workers.flatMap WorkerState.hand :=
    List.mem_flatMap.mpr ⟨_, List.mem_of_getElem? there, List.mem_singleton_self pointer⟩
  exact supplied.pending pointer (by simp [Pool.pending, busy])

/-- Threads go on with what they have. -/
theorem handOn (supplied : Supplied contents pool session) (feed : next.feed = pool.feed)
    (scans : next.scanner.scans = true → pool.scanner.scans = true)
    (pending : ∀ pointer ∈ next.pending, pointer ∈ pool.pending) (alike : after.Alike session) :
    Supplied contents next after where
  pending pointer member := supplied.pending pointer (pending pointer member)
  rest going := by
    obtain ⟨reference, same, ends⟩ := supplied.rest (scans going)
    rw [feed]
    exact ⟨reference, alike.trans same, ends⟩

/-- The scanner asks for no more. -/
theorem stop (supplied : Supplied contents pool session) (scans : next.scanner.scans = false)
    (pending : ∀ pointer ∈ next.pending, pointer ∈ pool.pending) :
    Supplied contents next after where
  pending pointer member := supplied.pending pointer (pending pointer member)
  rest going := by
    rw [scans] at going
    cases going

/-- A worker goes on. -/
theorem assign (supplied : Supplied contents pool session) {index : Nat} {old state : WorkerState}
    (there : pool.workers[index]? = some old) (free : state.hand = [])
    (alike : after.Alike session) : Supplied contents (pool.assign index state) after := by
  refine supplied.handOn rfl id (fun pointer member => ?_) alike
  refine (mem_pending_assign there member).resolve_right ?_
  rw [free]
  exact List.not_mem_nil

/-- What the scanner is told when it asks is what the contents of the feed say. -/
theorem ask (supplied : Supplied contents pool session) (place : pool.scanner = .pulling)
    {outcome : Except Failure (Option (ScanItem × Feed))}
    (asked : pool.feed.next session = (outcome, after)) :
    ∃ reference later, pool.feed.next reference = (outcome, later) ∧ after.Alike later ∧
      (pool.feed.contents reference).failure = contents.failure ∧
      ∀ item ∈ (pool.feed.contents reference).items, item ∈ contents.items := by
  obtain ⟨reference, alike, failure, items⟩ := supplied.rest (by rw [place]; rfl)
  obtain ⟨sameOutcome, sameAfter⟩ := pool.feed.scanning_next.alike session reference alike
  rw [asked] at sameOutcome sameAfter
  have again : pool.feed.next reference = (outcome, (pool.feed.next reference).2) :=
    Prod.ext sameOutcome.symm rfl
  exact ⟨reference, _, again, sameAfter, failure, items⟩

/-- The scanner gets a pointer. -/
theorem receive (supplied : Supplied contents pool session) (place : pool.scanner = .pulling)
    {pointer : FoundPointer} {feed : Feed}
    (asked : pool.feed.next session = (.ok (some (.pointer pointer, feed)), after)) :
    Supplied contents { pool with feed, scanner := .pushing pointer } after := by
  obtain ⟨reference, later, again, alike, failure, items⟩ := supplied.ask place asked
  rw [Feed.contents_of_item again] at failure items
  refine ⟨fun other member => ?_, fun _ => ⟨later, alike, failure, fun item member =>
    items item (List.mem_cons_of_mem _ member)⟩⟩
  rcases List.mem_append.mp member with new | queued
  · rw [List.mem_singleton.mp new]
    exact items _ List.mem_cons_self
  · exact supplied.pending other (List.mem_append_right _ queued)

/-- The scanner puts a pointer into the queue. -/
theorem push (supplied : Supplied contents pool session) {pointer : FoundPointer}
    {queue : WorkQueue FoundPointer} (place : pool.scanner = .pushing pointer)
    (accepted : pool.queue.push pointer = .accepted queue) (woken : Nat) :
    Supplied contents ({ pool with queue, scanner := .pulling }.wakeWorker woken) session := by
  obtain ⟨-, -, rfl⟩ := WorkQueue.push_eq_accepted accepted
  let pushed : Pool := { pool with
    queue := { pool.queue with items := pool.queue.items ++ [pointer] }
    scanner := .pulling }
  have through : Supplied contents pushed session := by
    refine supplied.handOn rfl (fun _ => by rw [place]; rfl) (fun other member => ?_) (.refl _)
    simp only [pushed, Pool.pending, place, ScannerState.hand, List.mem_append,
      List.mem_singleton, List.not_mem_nil, false_or] at member ⊢
    rcases member with (queued | new) | taken
    · exact .inr (.inl queued)
    · exact .inl new
    · exact .inr (.inr taken)
  obtain ⟨same, -⟩ | ⟨index, there, same⟩ := pushed.wakeWorker_cases woken
  · rw [same]
    exact through
  · rw [same]
    exact through.assign there rfl (.refl _)

/-- A worker takes a pointer out of the queue. -/
theorem pop (supplied : Supplied contents pool session) {index : Nat} {pointer : FoundPointer}
    {queue : WorkQueue FoundPointer} (there : pool.workers[index]? = some .ready)
    (given : pool.queue.pop = .item pointer queue) :
    Supplied contents
      ({ pool with queue, scanner := pool.scanner.wake }.assign index (.checking pointer))
      session := by
  obtain ⟨-, rest, items, rfl⟩ := WorkQueue.pop_eq_item given
  refine supplied.handOn rfl (fun going => pool.scanner.scans_wake ▸ going)
    (fun other member => ?_) (.refl _)
  have queued : pointer ∈ pool.pending := by simp [Pool.pending, items]
  let popped : Pool := { pool with
    queue := { pool.queue with items := rest }
    scanner := pool.scanner.wake }
  have place : popped.workers[index]? = some .ready := there
  rcases mem_pending_assign place member with before | new
  · simp only [popped, Pool.pending, items, ScannerState.hand_wake, List.mem_append, List.mem_cons]
      at before ⊢
    exact before.imp_right (.imp_left .inr)
  · rw [List.mem_singleton.mp new]
    exact queued

/-- The queue fails. -/
theorem fail (supplied : Supplied contents pool session) (failure : Failure) :
    Supplied contents (pool.fail failure) session := by
  refine supplied.handOn rfl (fun going => pool.scanner.scans_wake ▸ going)
    (fun pointer member => ?_) (.refl _)
  simp only [Pool.pending, Pool.fail, WorkQueue.items_fail, ScannerState.hand_wake,
    flatMap_wake WorkerState.hand WorkerState.hand_wake, List.nil_append, List.mem_append]
    at member ⊢
  exact member.imp_right .inr

end Supplied

private theorem throws_assign {index : Nat} {state : WorkerState} {failure : Failure}
    (throws : (pool.assign index state).Throws failure) :
    pool.Throws failure ∨ state = .failing failure := by
  rcases throws with scanner | worker
  · exact .inl (.inl scanner)
  · exact (List.mem_or_eq_of_mem_set worker).imp .inr Eq.symm

private theorem failing_mem_wake {workers : List WorkerState} {failure : Failure} :
    .failing failure ∈ workers.map WorkerState.wake ↔ .failing failure ∈ workers := by
  rw [List.mem_map]
  constructor
  · rintro ⟨worker, member, woken⟩
    cases worker with
    | failing other => exact woken ▸ member
    | _ => cases woken
  · exact fun member => ⟨_, member, rfl⟩

private theorem failing_of_wake {scanner : ScannerState} {failure : Failure}
    (woken : scanner.wake = .failing failure) : scanner = .failing failure := by
  cases scanner with
  | failing other => exact woken
  | _ => cases woken

private theorem mem_set_of_ne {workers : List WorkerState} {index : Nat}
    {old state other : WorkerState}
    (there : workers[index]? = some old) (differ : other ≠ old) (member : other ∈ workers) :
    other ∈ workers.set index state := by
  obtain ⟨place, found⟩ := List.mem_iff_getElem?.mp member
  apply List.mem_of_getElem? (i := place)
  rw [List.getElem?_set_ne, found]
  rintro rfl
  exact differ (Option.some.inj (found.symm.trans there))

/-- A thread that is about to fail the queue is so until it tells the queue. -/
theorem Move.throws_or_told (move : Move pool session thread event next after) {failure : Failure}
    (throws : pool.Throws failure) :
    next.Throws failure ∨ event = some (.failed (classify failure)) := by
  -- a scanner that does something else was not about to fail the queue
  have others {state : ScannerState} (place : pool.scanner = state)
      (differ : state ≠ .failing failure) : .failing failure ∈ pool.workers :=
    throws.resolve_left fun here => differ (place.symm.trans here)
  have assigned {index : Nat} {old state : WorkerState} (there : pool.workers[index]? = some old)
      (differ : .failing failure ≠ old) : (pool.assign index state).Throws failure :=
    throws.imp id (mem_set_of_ne there differ)
  cases move with
  | rests => exact .inl throws
  | feedFails place | feedEnds place | delivers place | misdelivers place | givesUp place
  | awaitsRoom place => exact .inl (.inr (others place nofun))
  | pushes place =>
      obtain ⟨same, -⟩ | ⟨index, there, same⟩ := wakeWorker_cases _ _ <;> rw [same]
      · exact .inl (.inr (others place nofun))
      · exact .inl (.inr (mem_set_of_ne there nofun (others place nofun)))
  | @failsScan _ other place =>
      rcases throws with here | worker
      · obtain rfl : other = failure := by
          rw [place] at here
          cases here
          rfl
        exact .inr rfl
      · exact .inl (.inr (failing_mem_wake.mpr worker))
  | closes place => exact .inl (.inr (failing_mem_wake.mpr (others place nofun)))
  | pops there =>
      refine .inl (throws.imp (fun here => ?_) (mem_set_of_ne there nofun))
      change pool.scanner.wake = _
      rw [here]
      rfl
  | retires there | awaitsWork there | checkFails there | findsNothing there | finds there
  | drops there | keeps there | reports there => exact .inl (assigned there nofun)
  | @failsCheck index other there =>
      by_cases same : other = failure
      · exact .inr (by rw [same])
      · refine .inl (throws.imp (fun here => ?_) fun worker => ?_)
        · change pool.scanner.wake = _
          rw [here]
          rfl
        · apply mem_set_of_ne (pool.getElem?_fail _ there rfl)
          · rintro ⟨⟩
            exact same rfl
          · exact failing_mem_wake.mpr worker

/-- A step looks at the store and reports, and does nothing else to a session. -/
theorem Move.observes (move : Move pool session thread event next after) :
    session.Observes after :=
  move.within pool.store.looks_observes

/-- What can be said of a pool wherever a schedule has led it, in terms of the session that it
started from and of what the feed had then. -/
structure Accounted (store : Store) (start : Session) (contents : Feed.Contents) (pool : Pool)
    (session : Session) : Prop where
  store_eq : pool.store = store
  observes : start.Observes session
  keeps : pool.queue.Keeps pool.queue.failure
  supplied : Supplied contents pool session
  thrown : ∀ failure, pool.Throws failure → store.Causes start.files contents (classify failure)
  caused : ∀ failure, pool.queue.failure = some failure →
    store.Causes start.files contents failure
  balanced : pool.queue.failure = none → (∀ failure, ¬pool.Throws failure) →
    ∃ checked reported, Balanced store start contents pool session checked reported

variable {store : Store} {start : Session} {contents : Feed.Contents}

/-- A worker that checks a pointer judges it by the files of the beginning but for records. -/
theorem Accounted.checkObject (accounted : Accounted store start contents pool session)
    {pointer : FoundPointer} {outcome : Except Failure (Option Finding)}
    (checked : pool.store.checkObject pointer session = (outcome, after)) :
    (∃ files, start.Sees files ∧ store.judge files (.pointer pointer) = outcome) ∧
      after.Alike session ∧
      after.opened = session.opened ++ store.opens (.pointer pointer) ∧
      after.report = session.report := by
  obtain ⟨files, reached, sees, examines, report, same⟩ :=
    pool.store.checkObject_apply pointer session
  obtain ⟨outcomeEq, rfl⟩ := Prod.mk.inj (same.symm.trans checked)
  have seesFiles : start.Sees files :=
    accounted.observes.files.trans accounted.observes.journal sees
  have opened := pool.store.opened_checkObject pointer session
  rw [checked] at opened
  rw [accounted.store_eq] at opened outcomeEq
  exact ⟨⟨files, seesFiles, outcomeEq⟩, examines.alike, opened, report⟩

/-- No step brings anything to the threads that the feed did not have. -/
theorem Move.supplied (move : Move pool session thread event next after)
    (accounted : Accounted store start contents pool session) :
    Supplied contents next after := by
  have supplied := accounted.supplied
  -- the scanner puts down what it had, and the others keep what they have
  have others {scanner : ScannerState} (free : scanner.hand = []) (feed : Feed)
      (pointer : FoundPointer)
      (member : pointer ∈ ({ pool with feed, scanner := scanner } : Pool).pending) :
      pointer ∈ pool.pending := by
    simp only [pending, free, List.nil_append] at member
    exact List.mem_append_right _ member
  cases move with
  | rests => exact supplied
  | feedFails | misdelivers | feedEnds => exact supplied.stop rfl (others rfl _)
  | delivers place asked => exact supplied.receive place asked
  | pushes place accepted => exact supplied.push place accepted _
  | givesUp => exact supplied.stop rfl (others rfl pool.feed)
  | awaitsRoom place =>
      refine supplied.handOn rfl (fun _ => by rw [place]; rfl) (fun _ member => ?_) (.refl _)
      simpa [pending, place, ScannerState.hand] using member
  | @failsScan _ failure =>
      have failed := supplied.fail (classify failure)
      refine failed.stop rfl fun pointer member => ?_
      simp only [pending, ScannerState.hand, List.nil_append] at member
      exact List.mem_append_right _ member
  | closes =>
      refine supplied.stop rfl fun pointer member => ?_
      simp only [pending, ScannerState.hand, WorkQueue.close,
        flatMap_wake WorkerState.hand WorkerState.hand_wake, List.nil_append] at member
      exact List.mem_append_right _ member
  | pops there given => exact supplied.pop there given
  | retires there | awaitsWork there | drops there | keeps there =>
      exact supplied.assign there rfl (.refl _)
  | checkFails there looked | findsNothing there looked | finds there looked =>
      exact supplied.assign there rfl (accounted.checkObject looked).2.1
  | reports there => exact supplied.assign there rfl (within_report _ session).alike
  | failsCheck there =>
      exact (supplied.fail _).assign (pool.getElem?_fail _ there rfl) rfl (.refl _)

/-- What a thread is about to fail the queue with has its cause. -/
theorem Move.thrown (move : Move pool session thread event next after)
    (accounted : Accounted store start contents pool session) {failure : Failure}
    (throws : next.Throws failure) : store.Causes start.files contents (classify failure) := by
  have supplied := accounted.supplied
  have before := accounted.thrown failure
  have scanned {state : ScannerState}
      (throws : state = .failing failure ∨ .failing failure ∈ pool.workers)
      (differ : state ≠ .failing failure) :
      store.Causes start.files contents (classify failure) :=
    before (.inr (throws.resolve_left differ))
  have assigned {index : Nat} {state : WorkerState}
      (throws : (pool.assign index state).Throws failure) (differ : state ≠ .failing failure) :
      store.Causes start.files contents (classify failure) :=
    before ((throws_assign throws).resolve_right differ)
  have failed {told : Failure} (throws : (pool.fail told).Throws failure) : pool.Throws failure :=
    throws.imp failing_of_wake failing_mem_wake.mp
  cases move with
  | rests => exact before throws
  | @feedFails _ other _ place asked =>
      rcases throws with here | worker
      · obtain rfl : other = failure := by
          cases here
          rfl
        obtain ⟨reference, later, again, -, ends, -⟩ := supplied.ask place asked
        rw [Feed.contents_of_error again] at ends
        exact .feed ends.symm
      · exact before (.inr worker)
  | @misdelivers _ path treeOid _ _ place asked =>
      rcases throws with here | worker
      · cases here
        obtain ⟨reference, later, again, -, -, items⟩ := supplied.ask place asked
        rw [Feed.contents_of_item again] at items
        exact .misplaced (items _ List.mem_cons_self)
      · exact before (.inr worker)
  | feedEnds | delivers | givesUp | awaitsRoom => exact scanned throws nofun
  | @pushes woken _ _ place =>
      obtain ⟨same, -⟩ | ⟨index, there, same⟩ := wakeWorker_cases _ woken <;> rw [same] at throws
      · exact scanned throws nofun
      · exact scanned ((throws_assign throws).resolve_right nofun) nofun
  | failsScan =>
      exact before (.inr (failing_mem_wake.mp (throws.resolve_left nofun)))
  | closes => exact before (.inr (failing_mem_wake.mp (throws.resolve_left nofun)))
  | pops =>
      refine before (((throws_assign throws).resolve_right nofun).imp ?_ id)
      exact failing_of_wake
  | retires | awaitsWork | findsNothing | finds | drops | keeps | reports =>
      exact assigned throws nofun
  | @checkFails _ pointer other _ there looked =>
      rcases throws_assign throws with earlier | new
      · exact before earlier
      · obtain rfl : other = failure := by
          cases new
          rfl
        obtain ⟨⟨files, sees, judged⟩, -⟩ := accounted.checkObject looked
        rw [Store.classify_of_judge judged]
        exact .check (supplied.mem_items there) ((Store.judge_error_iff_of_sees sees).mp judged)
  | failsCheck => exact before (failed ((throws_assign throws).resolve_right nofun))

/-- A failure that a step tells the queue has its cause. -/
theorem Move.told (move : Move pool session thread event next after)
    (accounted : Accounted store start contents pool session) {failure : Failure}
    (told : event.bind QueueEvent.failure? = some failure) :
    store.Causes start.files contents failure := by
  cases move with
  | failsScan place =>
      cases told
      exact accounted.thrown _ (.inl place)
  | failsCheck there =>
      cases told
      exact accounted.thrown _ (.inr (List.mem_of_getElem? there))
  | _ => cases told

/-- Nothing is lost by a step of a pool in which nothing has gone wrong, as long as nothing goes
wrong. -/
theorem Move.balanced (move : Move pool session thread event next after)
    (accounted : Accounted store start contents pool session) {checked : List FoundPointer}
    {reported : List Finding}
    (balanced : Balanced store start contents pool session checked reported)
    (working : pool.queue.failed = false) (untold : event.bind QueueEvent.failure? = none)
    (fine : ∀ failure, ¬next.Throws failure) :
    ∃ checked reported, Balanced store start contents next after checked reported := by
  cases move with
  | rests => exact ⟨checked, reported, balanced⟩
  | feedFails | misdelivers => exact absurd (.inl rfl) (fine _)
  | feedEnds place asked => exact ⟨checked, reported, balanced.finish place asked⟩
  | delivers place asked => exact ⟨checked, reported, balanced.receive place asked⟩
  | pushes place accepted => exact ⟨checked, reported, balanced.push place accepted _⟩
  | givesUp _ refused =>
      rw [WorkQueue.push_eq_refused, working] at refused
      cases refused
  | awaitsRoom place =>
      refine ⟨checked, reported, balanced.handOn rfl (by rw [place]; rfl) ?_ (.refl _)
        (.refl _) rfl rfl⟩
      simp [pending, place, ScannerState.hand]
  | failsScan | failsCheck => cases untold
  | closes place =>
      refine ⟨checked, reported, balanced.handOn rfl (by rw [place]; rfl) ?_ ?_ (.refl _)
        rfl rfl⟩
      · simp [pending, place, ScannerState.hand, WorkQueue.close,
          flatMap_wake WorkerState.hand WorkerState.hand_wake]
      · simp [held, flatMap_wake WorkerState.held WorkerState.held_wake]
  | pops there given => exact ⟨checked, reported, balanced.pop there given⟩
  | retires there | awaitsWork there | keeps there =>
      exact ⟨checked, reported, balanced.handOn rfl rfl (pending_assign there rfl)
        (held_assign there rfl) (.refl _) rfl rfl⟩
  | checkFails there =>
      have within := (List.getElem?_eq_some_iff.mp there).1
      exact absurd (.inr (List.mem_set within _)) (fine _)
  | findsNothing there looked | finds there looked =>
      obtain ⟨⟨files, sees, judged⟩, alike, opened, report⟩ := accounted.checkObject looked
      have judgeable := (Store.judge_ok_iff_of_sees sees).mp ⟨_, judged⟩
      have same (avoids : store.AvoidsJournal start contents.items) :=
        (Store.judge_of_sees avoids sees (accounted.supplied.mem_items there)).symm.trans judged
      exact ⟨_, reported, balanced.check there judgeable same rfl rfl alike opened report⟩
  | drops _ failed =>
      rw [working] at failed
      cases failed
  | reports there => exact ⟨checked, _, balanced.report_finding there⟩

private theorem Move.accounted (move : Move pool session thread event next after)
    (accounted : Accounted store start contents pool session) :
    Accounted store start contents next after := by
  have keeps := move.keeps_queue accounted.keeps
  have failure := keeps.failure_eq
  refine {
    store_eq := move.store_eq.trans accounted.store_eq
    observes := IsTrans.trans _ _ _ accounted.observes move.observes
    keeps := keeps.self
    supplied := move.supplied accounted
    thrown := fun _ => move.thrown accounted
    caused := fun other failed => ?_
    balanced := fun working fine => ?_ }
  · rw [failure] at failed
    cases earlier : pool.queue.failure with
    | some kept =>
        rw [earlier, Option.some_or] at failed
        cases failed
        exact accounted.caused _ earlier
    | none =>
        rw [earlier, Option.none_or] at failed
        exact move.told accounted failed
  · rw [failure, Option.or_eq_none_iff] at working
    obtain ⟨earlier, untold⟩ := working
    have calm (other : Failure) : ¬pool.Throws other := by
      intro throws
      rcases move.throws_or_told throws with still | told
      · exact fine other still
      · rw [told] at untold
        cases untold
    obtain ⟨checked, reported, balanced⟩ := accounted.balanced earlier calm
    exact move.balanced accounted balanced (accounted.keeps.working_iff.mpr earlier) untold fine

private theorem flatMap_ready {α : Type} (part : WorkerState → List α) (nothing : part .ready = [])
    (workers : Nat) : (List.replicate workers WorkerState.ready).flatMap part = [] := by
  rw [List.flatMap_eq_nil_iff]
  intro worker member
  rw [List.eq_of_mem_replicate member, nothing]

private theorem pending_start (store : Store) (feed : Feed) (workers : Nat) :
    (Pool.start store feed workers).pending = [] := by
  rw [pending, Pool.start, flatMap_ready WorkerState.hand rfl]
  rfl

/-- At the start of a pass every item is still in the feed. -/
theorem accounted_start (store : Store) (feed : Feed) (workers : Nat)
    (observes : start.Observes session) (alike : session.Alike start)
    (opened : session.opened = start.opened) (report : session.report = start.report) :
    Accounted store start (feed.contents start) (Pool.start store feed workers) session where
  store_eq := rfl
  observes := observes
  keeps := WorkQueue.keeps_start _
  supplied := by
    refine ⟨fun pointer member => ?_, fun _ => ⟨start, alike, rfl, fun _ => id⟩⟩
    rw [pending_start] at member
    cases member
  thrown failure throws := by
    rcases throws with scanner | worker
    · cases scanner
    · cases List.eq_of_mem_replicate worker
  caused _ failed := nomatch failed
  balanced _ _ := by
    refine ⟨[], [], ⟨feed.contents start, .going rfl alike, rfl, rfl, ?_⟩, ?_, ?_, ?_, report⟩
    · rw [pending_start]
      exact .refl _
    · exact fun _ impossible => nomatch impossible
    · intro _
      rw [held, Pool.start, flatMap_ready WorkerState.held rfl]
      exact .refl _
    · rw [opened]
      exact (List.append_nil _).symm

/-- Where a schedule leads, everything is accounted for. -/
theorem Course.accounted {last : Pool} {schedule : List PoolThread}
    {events : List (QueueEvent FoundPointer)}
    (course : Course pool session schedule events last after)
    (begun : Accounted store start contents pool session) :
    Accounted store start contents last after :=
  course.keeps (fun {_ _ _ _ _ _} accounted move => move.accounted accounted) begun

/-- A pool that is over and has not failed has checked every item and reported what it found. -/
theorem Accounted.settled (accounted : Accounted store start contents pool session)
    (sound : Sound pool) (finished : pool.isOver = true) (working : pool.queue.failure = none) :
    contents.failure = none ∧ session.Alike contents.after ∧
      (∀ item ∈ contents.items, ∃ found, store.judge start.files item = .ok found) ∧
      session.opened.Perm (start.opened ++ contents.items.flatMap store.opens) ∧
      ∃ reported : List Finding, session.report = reported.foldl Report.add start.report ∧
        (store.AvoidsJournal start contents.items →
          reported.Perm (contents.items.flatMap (store.due start.files))) := by
  obtain ⟨place, stopped⟩ := isOver_iff.mp finished
  have nothing {α : Type} (part : WorkerState → List α) (free : part .stopped = []) :
      pool.workers.flatMap part = [] := by
    rw [List.flatMap_eq_nil_iff]
    intro worker member
    rw [stopped worker member, free]
  have empty : pool.queue.items = [] := by
    obtain ⟨worker, member⟩ := List.exists_mem_of_ne_nil _ sound.staffed
    rcases sound.retired (stopped worker member ▸ member) with failed | ⟨-, empty⟩
    · rw [accounted.keeps.working_iff.mpr working] at failed
      cases failed
    · exact empty
  have noHand : pool.pending = [] := by
    rw [pending, place, empty, nothing WorkerState.hand rfl]
    rfl
  have noneHeld : pool.held = [] := nothing WorkerState.held rfl
  have calm (failure : Failure) : ¬pool.Throws failure := by
    rintro (scanner | worker)
    · cases place.symm.trans scanner
    · cases stopped _ worker
  obtain ⟨checked, reported, balanced⟩ := accounted.balanced working calm
  obtain ⟨rest, remains, failure, last, items⟩ := balanced.items
  cases remains with
  | going going =>
      rw [place] at going
      cases going
  | ended _ noItems noFailure alike =>
      rw [noHand, noItems, List.append_nil, List.append_nil] at items
      refine ⟨failure.symm.trans noFailure, last ▸ alike, fun item member => ?_, ?_, reported,
        balanced.report, fun avoids => ?_⟩
      · obtain ⟨pointer, among, rfl⟩ := List.mem_map.mp (items.mem_iff.mp member)
        exact balanced.judged pointer among
      · have paths := items.flatMap_right store.opens
        rw [List.flatMap_map] at paths
        rw [balanced.opened]
        exact paths.symm.append_left start.opened
      · have findings := balanced.findings avoids
        rw [noneHeld, List.append_nil] at findings
        have dues := items.flatMap_right (store.due start.files)
        rw [List.flatMap_map] at dues
        exact (dues.trans findings).symm

end Pool

end StoreAudit
