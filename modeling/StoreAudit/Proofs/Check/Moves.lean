import StoreAudit.Check.Pool
import StoreAudit.Proofs.Check.WorkQueue
import StoreAudit.Proofs.Session.Step

/-!
# Moves of a pool

`Pool.Move` lists what a step of a thread can do, with the call on the queue that it makes return.
Every step is a move (`Pool.move_step`), so what all moves keep holds wherever a schedule leads
(`Pool.Course.keeps`).
-/

namespace StoreAudit

open Audit

namespace Pool

/-- The pool with another state of a worker. -/
def assign (pool : Pool) (index : Nat) (state : WorkerState) : Pool :=
  { pool with workers := pool.workers.set index state }

/-- A thread that neither waits nor has stopped. -/
def CanStep (pool : Pool) : PoolThread → Prop
  | .scanner _ => pool.scanner.isActive = true
  | .worker index => ∃ worker, pool.workers[index]? = some worker ∧ worker.isActive = true

/-- What a step of a thread can do: the thread, the call on the queue that returns by it, and the
pool and the session after it. -/
inductive Move (pool : Pool) (session : Session) :
    PoolThread → Option (QueueEvent FoundPointer) → Pool → Session → Prop
  /-- A thread that waits or has stopped does nothing. -/
  | rests {thread : PoolThread} : ¬pool.CanStep thread → Move pool session thread none pool session
  | feedFails {woken : Nat} {failure : Failure} {after : Session} :
      pool.scanner = .pulling → pool.feed.next session = (.error failure, after) →
      Move pool session (.scanner woken) none { pool with scanner := .failing failure } after
  | feedEnds {woken : Nat} {after : Session} :
      pool.scanner = .pulling → pool.feed.next session = (.ok none, after) →
      Move pool session (.scanner woken) none { pool with scanner := .closing } after
  | delivers {woken : Nat} {pointer : FoundPointer} {feed : Feed} {after : Session} :
      pool.scanner = .pulling →
      pool.feed.next session = (.ok (some (.pointer pointer, feed)), after) →
      Move pool session (.scanner woken) none { pool with feed, scanner := .pushing pointer } after
  | misdelivers {woken : Nat} {path treeOid : Bytes} {feed : Feed} {after : Session} :
      pool.scanner = .pulling →
      pool.feed.next session = (.ok (some (.misplaced path treeOid, feed)), after) →
      Move pool session (.scanner woken) none
        { pool with feed, scanner := .failing (.unexpectedScanError path) } after
  | pushes {woken : Nat} {pointer : FoundPointer} {queue : WorkQueue FoundPointer} :
      pool.scanner = .pushing pointer → pool.queue.push pointer = .accepted queue →
      Move pool session (.scanner woken) (some (.pushed pointer))
        ({ pool with queue, scanner := .pulling }.wakeWorker woken) session
  | givesUp {woken : Nat} {pointer : FoundPointer} :
      pool.scanner = .pushing pointer → pool.queue.push pointer = .refused →
      Move pool session (.scanner woken) (some (.refused pointer))
        { pool with scanner := .closing } session
  | awaitsRoom {woken : Nat} {pointer : FoundPointer} :
      pool.scanner = .pushing pointer → pool.queue.push pointer = .full →
      Move pool session (.scanner woken) none { pool with scanner := .asleep pointer } session
  /-- The queue is told what stopped the scan. -/
  | failsScan {woken : Nat} {failure : Failure} : pool.scanner = .failing failure →
      Move pool session (.scanner woken) (some (.failed (classify failure)))
        { pool.fail (classify failure) with scanner := .closing } session
  | closes {woken : Nat} : pool.scanner = .closing →
      Move pool session (.scanner woken) (some .closed)
        { pool with
          queue := pool.queue.close
          scanner := .stopped
          workers := pool.workers.map WorkerState.wake } session
  | pops {index : Nat} {pointer : FoundPointer} {queue : WorkQueue FoundPointer} :
      pool.workers[index]? = some .ready → pool.queue.pop = .item pointer queue →
      Move pool session (.worker index) (some (.popped pointer))
        ({ pool with queue, scanner := pool.scanner.wake }.assign index (.checking pointer)) session
  | retires {index : Nat} : pool.workers[index]? = some .ready → pool.queue.pop = .finished →
      Move pool session (.worker index) (some .finished) (pool.assign index .stopped) session
  | awaitsWork {index : Nat} : pool.workers[index]? = some .ready → pool.queue.pop = .empty →
      Move pool session (.worker index) none (pool.assign index .asleep) session
  | checkFails {index : Nat} {pointer : FoundPointer} {failure : Failure} {after : Session} :
      pool.workers[index]? = some (.checking pointer) →
      pool.store.checkObject pointer session = (.error failure, after) →
      Move pool session (.worker index) none (pool.assign index (.failing failure)) after
  | findsNothing {index : Nat} {pointer : FoundPointer} {after : Session} :
      pool.workers[index]? = some (.checking pointer) →
      pool.store.checkObject pointer session = (.ok none, after) →
      Move pool session (.worker index) none (pool.assign index .ready) after
  | finds {index : Nat} {pointer : FoundPointer} {finding : Finding} {after : Session} :
      pool.workers[index]? = some (.checking pointer) →
      pool.store.checkObject pointer session = (.ok (some finding), after) →
      Move pool session (.worker index) none (pool.assign index (.judging finding)) after
  | drops {index : Nat} {finding : Finding} :
      pool.workers[index]? = some (.judging finding) → pool.queue.failed = true →
      Move pool session (.worker index) none (pool.assign index .ready) session
  | keeps {index : Nat} {finding : Finding} :
      pool.workers[index]? = some (.judging finding) → pool.queue.failed = false →
      Move pool session (.worker index) none (pool.assign index (.reporting finding)) session
  | reports {index : Nat} {finding : Finding} :
      pool.workers[index]? = some (.reporting finding) →
      Move pool session (.worker index) none (pool.assign index .ready)
        (report finding session).2
  /-- The queue is told what stopped the check of an object. -/
  | failsCheck {index : Nat} {failure : Failure} :
      pool.workers[index]? = some (.failing failure) →
      Move pool session (.worker index) (some (.failed (classify failure)))
        ((pool.fail (classify failure)).assign index .ready) session

private theorem move_stepScanner (pool : Pool) (woken : Nat) (session : Session) :
    ∃ event, Move pool session (.scanner woken) event (pool.stepScanner woken session).1
      (pool.stepScanner woken session).2 := by
  unfold stepScanner
  cases place : pool.scanner with
  | pulling =>
      dsimp only
      rw [bind_state_apply]
      rcases asked : pool.feed.next session with ⟨failure | _ | ⟨item, feed⟩, after⟩ <;>
        rw [ExceptT.run, asked]
      · exact ⟨_, .feedFails place asked⟩
      · exact ⟨_, .feedEnds place asked⟩
      · cases item with
        | pointer found => exact ⟨_, .delivers place asked⟩
        | misplaced path treeOid => exact ⟨_, .misdelivers place asked⟩
  | pushing pointer =>
      dsimp only
      cases pushed : pool.queue.push pointer with
      | accepted queue => exact ⟨_, .pushes place pushed⟩
      | refused => exact ⟨_, .givesUp place pushed⟩
      | full => exact ⟨_, .awaitsRoom place pushed⟩
  | failing failure => exact ⟨_, .failsScan place⟩
  | closing => exact ⟨_, .closes place⟩
  | asleep pointer => exact ⟨_, .rests (by simp [CanStep, place, ScannerState.isActive])⟩
  | stopped => exact ⟨_, .rests (by simp [CanStep, place, ScannerState.isActive])⟩

private theorem move_stepWorker (pool : Pool) (index : Nat) (session : Session) :
    ∃ event, Move pool session (.worker index) event (pool.stepWorker index session).1
      (pool.stepWorker index session).2 := by
  unfold stepWorker
  cases place : pool.workers[index]? with
  | none => exact ⟨_, .rests (by simp [CanStep, place])⟩
  | some worker =>
      cases worker with
      | ready =>
          dsimp only
          cases popped : pool.queue.pop with
          | item pointer queue => exact ⟨_, .pops place popped⟩
          | finished => exact ⟨_, .retires place popped⟩
          | empty => exact ⟨_, .awaitsWork place popped⟩
      | checking pointer =>
          dsimp only
          rw [bind_state_apply]
          rcases checked : pool.store.checkObject pointer session with
            ⟨failure | _ | finding, after⟩ <;> rw [ExceptT.run, checked]
          · exact ⟨_, .checkFails place checked⟩
          · exact ⟨_, .findsNothing place checked⟩
          · exact ⟨_, .finds place checked⟩
      | judging finding =>
          cases failed : pool.queue.failed with
          | false => exact ⟨_, .keeps place failed⟩
          | true => exact ⟨_, .drops place failed⟩
      | reporting finding => exact ⟨_, .reports place⟩
      | failing failure => exact ⟨_, .failsCheck place⟩
      | asleep => exact ⟨_, .rests (by simp [CanStep, place, WorkerState.isActive])⟩
      | stopped => exact ⟨_, .rests (by simp [CanStep, place, WorkerState.isActive])⟩

/-- Every step is a move. -/
theorem move_step (pool : Pool) (thread : PoolThread) (session : Session) :
    ∃ event, Move pool session thread event (pool.step thread session).1
      (pool.step thread session).2 := by
  cases thread with
  | scanner woken => exact pool.move_stepScanner woken session
  | worker index => exact pool.move_stepWorker index session

/-- The moves that a schedule makes, and the calls on the queue that return by them. -/
inductive Course :
    Pool → Session → List PoolThread → List (QueueEvent FoundPointer) → Pool → Session → Prop
  | nil (pool : Pool) (session : Session) : Course pool session [] [] pool session
  | cons {pool next last : Pool} {session between after : Session} {thread : PoolThread}
      {schedule : List PoolThread} {event : Option (QueueEvent FoundPointer)}
      {events : List (QueueEvent FoundPointer)} :
      Move pool session thread event next between →
      Course next between schedule events last after →
      Course pool session (thread :: schedule) (event.toList ++ events) last after

/-- A schedule is followed one step at a time. -/
theorem follow_cons (pool : Pool) (thread : PoolThread) (schedule : List PoolThread)
    (session : Session) :
    pool.follow (thread :: schedule) session =
      (pool.step thread session).1.follow schedule (pool.step thread session).2 := rfl

/-- Wherever it starts, a schedule takes a course. -/
theorem course_follow (schedule : List PoolThread) (pool : Pool) (session : Session) :
    ∃ events, Course pool session schedule events (pool.follow schedule session).1
      (pool.follow schedule session).2 := by
  induction schedule generalizing pool session with
  | nil => exact ⟨[], .nil pool session⟩
  | cons thread rest ih =>
      obtain ⟨event, move⟩ := pool.move_step thread session
      obtain ⟨events, course⟩ := ih (pool.step thread session).1 (pool.step thread session).2
      rw [follow_cons]
      exact ⟨event.toList ++ events, .cons move course⟩

/-- What every move keeps, a course keeps. -/
theorem Course.keeps {invariant : Pool → Session → Prop}
    (step : ∀ {pool next session after thread event}, invariant pool session →
      Move pool session thread event next after → invariant next after)
    {pool last : Pool} {session after : Session} {schedule : List PoolThread}
    {events : List (QueueEvent FoundPointer)}
    (course : Course pool session schedule events last after) (start : invariant pool session) :
    invariant last after := by
  induction course with
  | nil => exact start
  | cons move _ ih => exact ih (step start move)

/-- Waking a worker makes one that waits ready, or there is none that waits. -/
theorem wakeWorker_cases (pool : Pool) (woken : Nat) :
    (pool.wakeWorker woken = pool ∧ .asleep ∉ pool.workers) ∨
      ∃ index, pool.workers[index]? = some .asleep ∧
        pool.wakeWorker woken = pool.assign index .ready := by
  unfold wakeWorker
  dsimp only
  split
  · rename_i worker index found
    right
    have waiting := List.mem_of_getElem? found
    rw [List.mem_filter] at waiting
    obtain ⟨place, asleep⟩ := waiting
    have there : pool.workers[index]? = some worker := by
      simpa using List.mem_zipIdx_iff_getElem?.mp place
    cases worker with
    | asleep => exact ⟨index, there, rfl⟩
    | ready | checking _ | judging _ | reporting _ | failing _ | stopped => cases asleep
  · rename_i beyond
    left
    refine ⟨rfl, fun asleep => ?_⟩
    obtain ⟨index, place⟩ := List.mem_iff_getElem?.mp asleep
    have waiting : (WorkerState.asleep, index) ∈
        pool.workers.zipIdx.filter fun entry => entry.1.isAsleep := by
      rw [List.mem_filter]
      exact ⟨List.mem_zipIdx_iff_getElem?.mpr (by simpa using place), rfl⟩
    rw [List.getElem?_eq_none_iff] at beyond
    have some := List.length_pos_of_mem waiting
    exact absurd (Nat.mod_lt woken some) (Nat.not_lt_of_le beyond)

private theorem queue_wakeWorker (pool : Pool) (woken : Nat) :
    (pool.wakeWorker woken).queue = pool.queue := by
  obtain ⟨same, -⟩ | ⟨index, -, same⟩ := pool.wakeWorker_cases woken <;> rw [same]
  rfl

/-- No move changes which store is checked. -/
theorem Move.store_eq {pool next : Pool} {session after : Session} {thread : PoolThread}
    {event : Option (QueueEvent FoundPointer)} (move : Move pool session thread event next after) :
    next.store = pool.store := by
  cases move with
  | @pushes woken =>
      obtain ⟨same, -⟩ | ⟨index, -, same⟩ := wakeWorker_cases _ woken <;> rw [same]
      rfl
  | _ => rfl

/-- The queue changes only by the call that returns. -/
theorem Move.serves {pool next : Pool} {session after : Session} {thread : PoolThread}
    {event : Option (QueueEvent FoundPointer)} (move : Move pool session thread event next after) :
    match event with
    | none => next.queue = pool.queue
    | some event => pool.queue.Serves event next.queue := by
  cases move with
  | rests | feedFails | feedEnds | delivers | misdelivers | awaitsRoom | awaitsWork | checkFails
  | findsNothing | finds | drops | keeps | reports => rfl
  | failsScan | failsCheck => exact .failed _
  | pushes _ accepted =>
      rw [queue_wakeWorker]
      exact .pushed accepted
  | givesUp _ refused => exact .refused refused
  | closes => exact .closed
  | pops _ given => exact .popped given
  | retires _ finished => exact .finished finished

/-- The failure that the queue keeps is the one that it kept, or that the move tells. -/
theorem Move.keeps_queue {pool next : Pool} {session after : Session} {thread : PoolThread}
    {event : Option (QueueEvent FoundPointer)} {first : Option Failure}
    (move : Move pool session thread event next after) (keeps : pool.queue.Keeps first) :
    next.queue.Keeps (first.or (event.bind QueueEvent.failure?)) := by
  have serves := move.serves
  cases event with
  | none =>
      dsimp only at serves
      rw [serves, Option.bind_none, Option.or_none]
      exact keeps
  | some event => exact keeps.serves serves

/-- The queue of a pool has the history of the calls that have returned. -/
theorem Course.history {pool last : Pool} {session after : Session} {schedule : List PoolThread}
    {events before : List (QueueEvent FoundPointer)} {limit : Nat}
    (course : Course pool session schedule events last after)
    (begun : WorkQueue.History limit before pool.queue) :
    WorkQueue.History limit (before ++ events) last.queue := by
  induction course generalizing before with
  | nil => rwa [List.append_nil]
  | @cons _ _ _ _ _ _ _ _ event events move _ ih =>
      have serves := move.serves
      cases event with
      | none =>
          apply ih
          rw [serves]
          exact begun
      | some event =>
          rw [Option.toList_some, ← List.append_assoc]
          exact ih (begun.next serves)

end Pool

end StoreAudit
