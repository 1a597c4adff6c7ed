import Mathlib.Algebra.Ring.Nat
import StoreAudit.Proofs.Check.Moves
import StoreAudit.Proofs.Scan.Feed

/-!
# Progress of a pool

With any number of workers and any limit of the queue, no schedule leads the threads of a pool to
where all of them wait (`Pool.never_stuck`). Every step of a thread that neither waits nor has
stopped brings the pool nearer to its end (`Pool.Move.effort_lt`), so that the turns which the
program gives its threads suffice (`Pool.isOver_takeTurns`).
-/

namespace StoreAudit

open Audit

namespace WorkerState

private theorem wake_ne_asleep (worker : WorkerState) : worker.wake ≠ .asleep := by
  cases worker <;> exact WorkerState.noConfusion

private theorem wake_eq_stopped {worker : WorkerState} : worker.wake = .stopped ↔ worker = .stopped
    := by
  cases worker <;> simp [wake]

end WorkerState

namespace ScannerState

private theorem wake_ne_asleep (scanner : ScannerState) (pointer : FoundPointer) :
    scanner.wake ≠ .asleep pointer := by
  cases scanner <;> exact ScannerState.noConfusion

private theorem wake_eq_stopped {scanner : ScannerState} :
    scanner.wake = .stopped ↔ scanner = .stopped := by
  cases scanner <;> simp [wake]

end ScannerState

namespace Pool

/-- The pool at the start, with any limit of the queue. -/
def opening (store : Store) (feed : Feed) (limit workers : Nat) : Pool :=
  { store, feed, queue := { limit }, workers := List.replicate workers .ready }

/-- What keeps the threads of a pool from waiting for each other: whoever waits has somebody to wake
him, and whoever is never woken again does not wait. -/
structure Sound (pool : Pool) : Prop where
  limited : 0 < pool.queue.limit
  staffed : pool.workers ≠ []
  closed : pool.queue.closed = true ↔ pool.scanner = .stopped
  emptied : pool.queue.failed = true → pool.queue.items = []
  /-- Nobody waits for a queue that has failed. -/
  roused : pool.queue.failed = true →
    (∀ pointer, pool.scanner ≠ .asleep pointer) ∧ .asleep ∉ pool.workers
  /-- No worker waits for a scanner that has stopped. -/
  dismissed : pool.scanner = .stopped → .asleep ∉ pool.workers
  /-- The scanner waits only for room. -/
  full : ∀ pointer, pool.scanner = .asleep pointer → pool.queue.limit ≤ pool.queue.items.length
  /-- While there are items, workers that wait have a worker that does not. -/
  attended : pool.queue.items ≠ [] →
    (∃ worker ∈ pool.workers, worker.isActive = true) ∨ .asleep ∉ pool.workers
  retired : .stopped ∈ pool.workers →
    pool.queue.failed = true ∨ pool.scanner = .stopped ∧ pool.queue.items = []

/-- A pool that starts with room and workers is sound. -/
theorem sound_opening (store : Store) (feed : Feed) {limit workers : Nat} (room : 0 < limit)
    (staff : 0 < workers) : Sound (opening store feed limit workers) where
  limited := room
  staffed := by
    rw [opening, ne_eq, List.replicate_eq_nil_iff]
    exact Nat.ne_of_gt staff
  closed := ⟨fun closed => (nomatch closed), fun stopped => (nomatch stopped)⟩
  emptied failed := nomatch failed
  roused failed := nomatch failed
  dismissed stopped := nomatch stopped
  full _ asleep := nomatch asleep
  attended items := absurd rfl items
  retired stopped := nomatch List.eq_of_mem_replicate stopped

/-- A pool is over once all its threads have stopped. -/
theorem isOver_iff {pool : Pool} :
    pool.isOver = true ↔ pool.scanner = .stopped ∧ ∀ worker ∈ pool.workers, worker = .stopped := by
  unfold isOver
  rw [Bool.and_eq_true, List.all_eq_true]
  refine and_congr ?_ (forall_congr' fun worker => imp_congr_right fun _ => ?_)
  · cases pool.scanner <;> simp
  · cases worker <;> simp

namespace Sound

variable {pool : Pool}

/-- In a sound pool that is not over, some thread can take a step. -/
theorem exists_canStep (sound : Sound pool) (unfinished : pool.isOver = false) :
    ∃ thread, pool.CanStep thread := by
  by_contra stuck
  rw [not_exists] at stuck
  have idle (worker : WorkerState) (member : worker ∈ pool.workers) : worker.isActive = false := by
    obtain ⟨index, there⟩ := List.mem_iff_getElem?.mp member
    have resting := stuck (.worker index)
    simp only [CanStep, there] at resting
    simpa using resting
  have noneActive : ¬∃ worker ∈ pool.workers, worker.isActive = true := by
    rintro ⟨worker, member, active⟩
    rw [idle worker member] at active
    cases active
  have stopped (awake : .asleep ∉ pool.workers) (worker : WorkerState)
      (member : worker ∈ pool.workers) : worker = .stopped := by
    have resting := idle worker member
    cases worker with
    | asleep => exact absurd member awake
    | stopped => rfl
    | ready | checking _ | judging _ | reporting _ | failing _ => cases resting
  cases place : pool.scanner with
  | pulling | pushing _ | failing _ | closing =>
      exact stuck (.scanner 0) (by simp [CanStep, place, ScannerState.isActive])
  | stopped =>
      have done : pool.isOver = true := isOver_iff.mpr ⟨place, stopped (sound.dismissed place)⟩
      rw [done] at unfinished
      cases unfinished
  | asleep pointer =>
      have items : pool.queue.items ≠ [] := by
        have full := sound.full pointer place
        have limited := sound.limited
        intro empty
        rw [empty, List.length_nil] at full
        omega
      have awake := (sound.attended items).resolve_left noneActive
      obtain ⟨worker, member⟩ := List.exists_mem_of_ne_nil _ sound.staffed
      have retired := sound.retired (stopped awake worker member ▸ member)
      rcases retired with failed | ⟨ended, -⟩
      · exact (sound.roused failed).1 pointer place
      · rw [place] at ended
        cases ended

/-- A worker goes on. -/
theorem assign (sound : Sound pool) {index : Nat} {old state : WorkerState}
    (there : pool.workers[index]? = some old) (active : state.isActive = true) :
    Sound (pool.assign index state) := by
  have within : index < pool.workers.length := (List.getElem?_eq_some_iff.mp there).1
  have asleep (awake : .asleep ∉ pool.workers) : .asleep ∉ pool.workers.set index state := by
    intro member
    rcases List.mem_or_eq_of_mem_set member with before | rfl
    · exact awake before
    · cases active
  exact {
    limited := sound.limited
    staffed := by
      rw [Pool.assign, ne_eq, List.set_eq_nil_iff]
      exact sound.staffed
    closed := sound.closed
    emptied := sound.emptied
    roused := fun failed => ⟨(sound.roused failed).1, asleep (sound.roused failed).2⟩
    dismissed := fun ended => asleep (sound.dismissed ended)
    full := sound.full
    attended := fun _ => .inl ⟨state, List.mem_set within state, active⟩
    retired := by
      intro member
      rcases List.mem_or_eq_of_mem_set member with before | rfl
      · exact sound.retired before
      · cases active }

/-- The scanner goes on. -/
theorem scan (sound : Sound pool) (running : pool.scanner ≠ .stopped) {scanner : ScannerState}
    (active : scanner.isActive = true) (feed : Feed) :
    Sound { pool with feed, scanner := scanner } where
  limited := sound.limited
  staffed := sound.staffed
  closed := by
    refine ⟨fun closed => absurd (sound.closed.mp closed) running, ?_⟩
    rintro rfl
    cases active
  emptied := sound.emptied
  roused failed := by
    refine ⟨?_, (sound.roused failed).2⟩
    rintro pointer rfl
    cases active
  dismissed := by
    rintro rfl
    cases active
  full := by
    rintro pointer rfl
    cases active
  attended := sound.attended
  retired member := by
    refine (sound.retired member).imp_right ?_
    rintro ⟨ended, -⟩
    exact absurd ended running

/-- The queue fails. -/
theorem fail (sound : Sound pool) (failure : Failure) : Sound (pool.fail failure) := by
  have awake : .asleep ∉ (pool.fail failure).workers := by
    intro member
    obtain ⟨worker, -, woken⟩ := List.mem_map.mp member
    exact worker.wake_ne_asleep woken
  exact {
    limited := by
      rw [Pool.fail, pool.queue.limit_fail]
      exact sound.limited
    staffed := by
      rw [Pool.fail, ne_eq, List.map_eq_nil_iff]
      exact sound.staffed
    closed := by
      rw [Pool.fail, pool.queue.closed_fail]
      exact sound.closed.trans ScannerState.wake_eq_stopped.symm
    emptied := fun _ => pool.queue.items_fail failure
    roused := fun _ => ⟨pool.scanner.wake_ne_asleep, awake⟩
    dismissed := fun _ => awake
    full := fun pointer asleep => absurd asleep (pool.scanner.wake_ne_asleep pointer)
    attended := fun _ => .inr awake
    retired := fun _ => .inl (pool.queue.failed_fail failure) }

/-- The scanner has put a pointer into the queue and wakes a worker. -/
theorem push (sound : Sound pool) {pointer : FoundPointer} {queue : WorkQueue FoundPointer}
    (place : pool.scanner = .pushing pointer) (accepted : pool.queue.push pointer = .accepted queue)
    (woken : Nat) : Sound ({ pool with queue, scanner := .pulling }.wakeWorker woken) := by
  obtain ⟨working, room, rfl⟩ := WorkQueue.push_eq_accepted accepted
  have running : pool.scanner ≠ .stopped := by
    rw [place]
    exact ScannerState.noConfusion
  have noneRetired : .stopped ∉ pool.workers := by
    intro member
    rcases sound.retired member with failed | ⟨ended, -⟩
    · rw [working] at failed
      cases failed
    · exact running ended
  -- sound but for workers that wait while nobody works
  have pushed (workers : List WorkerState) (staffed : workers ≠ []) (running' : .stopped ∉ workers)
      (attended : (∃ worker ∈ workers, worker.isActive = true) ∨ .asleep ∉ workers) :
      Sound { pool with
        queue := { pool.queue with items := pool.queue.items ++ [pointer] }
        scanner := .pulling
        workers := workers } := {
    limited := sound.limited
    staffed := staffed
    closed := ⟨fun closed => absurd (sound.closed.mp closed) running, fun ended => nomatch ended⟩
    emptied := fun failed => by
      rw [working] at failed
      cases failed
    roused := fun failed => by
      rw [working] at failed
      cases failed
    dismissed := fun ended => nomatch ended
    full := fun _ asleep => nomatch asleep
    attended := fun _ => attended
    retired := fun member => absurd member running' }
  obtain ⟨same, awake⟩ | ⟨index, there, same⟩ := wakeWorker_cases
    { pool with
      queue := { pool.queue with items := pool.queue.items ++ [pointer] }
      scanner := .pulling } woken
  · rw [same]
    exact pushed pool.workers sound.staffed noneRetired (.inr awake)
  · rw [same]
    have within : index < pool.workers.length := (List.getElem?_eq_some_iff.mp there).1
    refine pushed (pool.workers.set index .ready) ?_ ?_ ?_
    · rw [ne_eq, List.set_eq_nil_iff]
      exact sound.staffed
    · intro member
      rcases List.mem_or_eq_of_mem_set member with before | impossible
      · exact noneRetired before
      · cases impossible
    · exact .inl ⟨.ready, List.mem_set within _, rfl⟩

/-- The scanner waits for room. -/
theorem awaitRoom (sound : Sound pool) {pointer : FoundPointer}
    (place : pool.scanner = .pushing pointer) (full : pool.queue.push pointer = .full) :
    Sound { pool with scanner := .asleep pointer } := by
  obtain ⟨working, crowded⟩ := WorkQueue.push_eq_full.mp full
  have running : pool.scanner ≠ .stopped := by
    rw [place]
    exact ScannerState.noConfusion
  exact {
    limited := sound.limited
    staffed := sound.staffed
    closed := ⟨fun closed => absurd (sound.closed.mp closed) running, fun ended => nomatch ended⟩
    emptied := sound.emptied
    roused := fun failed => by
      rw [working] at failed
      cases failed
    dismissed := fun ended => nomatch ended
    full := fun _ _ => crowded
    attended := sound.attended
    retired := fun member => .inl ((sound.retired member).resolve_right fun ⟨ended, _⟩ =>
      running ended) }

/-- The scanner closes the queue and stops. -/
theorem close (sound : Sound pool) (place : pool.scanner = .closing) :
    Sound { pool with
      queue := pool.queue.close
      scanner := .stopped
      workers := pool.workers.map WorkerState.wake } := by
  have awake : .asleep ∉ pool.workers.map WorkerState.wake := by
    intro member
    obtain ⟨worker, -, woken⟩ := List.mem_map.mp member
    exact worker.wake_ne_asleep woken
  exact {
    limited := sound.limited
    staffed := by
      rw [ne_eq, List.map_eq_nil_iff]
      exact sound.staffed
    closed := ⟨fun _ => rfl, fun _ => rfl⟩
    emptied := sound.emptied
    roused := fun _ => ⟨fun _ asleep => (nomatch asleep), awake⟩
    dismissed := fun _ => awake
    full := fun _ asleep => nomatch asleep
    attended := fun _ => .inr awake
    retired := by
      intro member
      obtain ⟨worker, before, woken⟩ := List.mem_map.mp member
      rw [WorkerState.wake_eq_stopped] at woken
      subst woken
      rcases sound.retired before with failed | ⟨ended, -⟩
      · exact .inl failed
      · rw [place] at ended
        cases ended }

/-- A worker that goes on has taken an item, and the scanner is woken. -/
theorem pop (sound : Sound pool) {index : Nat} {pointer : FoundPointer}
    {queue : WorkQueue FoundPointer} (there : pool.workers[index]? = some .ready)
    (given : pool.queue.pop = .item pointer queue) :
    Sound { pool with queue, scanner := pool.scanner.wake } := by
  obtain ⟨working, rest, items, rfl⟩ := WorkQueue.pop_eq_item given
  exact {
    limited := sound.limited
    staffed := sound.staffed
    closed := sound.closed.trans ScannerState.wake_eq_stopped.symm
    emptied := fun failed => by
      rw [working] at failed
      cases failed
    roused := fun failed => by
      rw [working] at failed
      cases failed
    dismissed := fun ended => sound.dismissed (ScannerState.wake_eq_stopped.mp ended)
    full := fun pointer asleep => absurd asleep (pool.scanner.wake_ne_asleep pointer)
    attended := fun _ => .inl ⟨.ready, List.mem_of_getElem? there, rfl⟩
    retired := fun member => by
      rcases sound.retired member with failed | ⟨-, empty⟩
      · exact .inl failed
      · rw [items] at empty
        cases empty }

/-- A worker stops. -/
theorem retire (sound : Sound pool) {index : Nat} (finished : pool.queue.pop = .finished) :
    Sound (pool.assign index .stopped) := by
  have ended := WorkQueue.pop_eq_finished.mp finished
  have empty : pool.queue.items = [] := by
    rcases ended with failed | ⟨-, empty⟩
    · exact sound.emptied failed
    · exact empty
  have asleep (awake : .asleep ∉ pool.workers) : .asleep ∉ pool.workers.set index .stopped := by
    intro member
    rcases List.mem_or_eq_of_mem_set member with before | impossible
    · exact awake before
    · cases impossible
  exact {
    limited := sound.limited
    staffed := by
      rw [Pool.assign, ne_eq, List.set_eq_nil_iff]
      exact sound.staffed
    closed := sound.closed
    emptied := sound.emptied
    roused := fun failed => ⟨(sound.roused failed).1, asleep (sound.roused failed).2⟩
    dismissed := fun stopped => asleep (sound.dismissed stopped)
    full := sound.full
    attended := fun items => absurd empty items
    retired := fun _ => ended.imp_right fun ⟨closed, _⟩ => ⟨sound.closed.mp closed, empty⟩ }

/-- A worker waits for an item. -/
theorem awaitWork (sound : Sound pool) {index : Nat} (empty : pool.queue.pop = .empty) :
    Sound (pool.assign index .asleep) := by
  obtain ⟨working, opened, items⟩ := WorkQueue.pop_eq_empty.mp empty
  have running : pool.scanner ≠ .stopped := by
    intro ended
    rw [sound.closed.mpr ended] at opened
    cases opened
  exact {
    limited := sound.limited
    staffed := by
      rw [Pool.assign, ne_eq, List.set_eq_nil_iff]
      exact sound.staffed
    closed := sound.closed
    emptied := sound.emptied
    roused := fun failed => by
      change pool.queue.failed = true at failed
      rw [working] at failed
      cases failed
    dismissed := fun ended => absurd ended running
    full := sound.full
    attended := fun some => absurd items some
    retired := by
      intro member
      rcases List.mem_or_eq_of_mem_set member with before | impossible
      · exact sound.retired before
      · cases impossible }

end Sound

variable {pool next : Pool} {session after : Session} {thread : PoolThread}
  {event : Option (QueueEvent FoundPointer)}

/-- A failure leaves a worker alone that does not wait. -/
theorem getElem?_fail (pool : Pool) (failure : Failure) {index : Nat} {worker : WorkerState}
    (there : pool.workers[index]? = some worker) (awake : worker.wake = worker) :
    (pool.fail failure).workers[index]? = some worker := by
  rw [fail, List.getElem?_map, there, Option.map_some, awake]

/-- Every move keeps a pool sound. -/
theorem Move.sound (move : Move pool session thread event next after) (sound : Sound pool) :
    Sound next := by
  have running {state : ScannerState} (place : pool.scanner = state)
      (active : state.isActive = true) : pool.scanner ≠ .stopped := by
    rw [place]
    rintro rfl
    cases active
  cases move with
  | rests => exact sound
  | feedFails place | feedEnds place => exact sound.scan (running place rfl) rfl pool.feed
  | delivers place | misdelivers place => exact sound.scan (running place rfl) rfl _
  | pushes place accepted => exact sound.push place accepted _
  | givesUp place => exact sound.scan (running place rfl) rfl pool.feed
  | awaitsRoom place full => exact sound.awaitRoom place full
  | failsScan place =>
      apply (sound.fail _).scan _ rfl pool.feed
      exact fun ended => running place rfl (ScannerState.wake_eq_stopped.mp ended)
  | closes place => exact sound.close place
  | pops there given => exact (sound.pop there given).assign there rfl
  | retires _ finished => exact sound.retire finished
  | awaitsWork _ empty => exact sound.awaitWork empty
  | failsCheck there => exact (sound.fail _).assign (pool.getElem?_fail _ there rfl) rfl
  | checkFails there | findsNothing there | finds there | drops there | keeps there
  | reports there => exact sound.assign there rfl

end Pool

/-- At least the number of steps of a scanner that asks for nothing more, with what they entail. -/
def ScannerState.effort : ScannerState → Nat
  | pulling => 3
  | pushing _ => 10
  | asleep _ => 9
  | failing _ => 2
  | closing => 1
  | stopped => 0

/-- At least the number of steps of a worker that takes nothing more; once the queue is closed or
failed it does not wait again. -/
def WorkerState.effort (settled : Bool) : WorkerState → Nat
  | ready => if settled then 1 else 2
  | asleep => 1
  | checking _ => 5
  | judging _ => 4
  | reporting _ => 3
  | failing _ => 3
  | stopped => 0

private theorem WorkerState.effort_wake_le (settled : Bool) (worker : WorkerState) :
    worker.wake.effort true ≤ worker.effort settled := by
  cases worker <;> cases settled <;> simp [wake, effort]

private theorem WorkerState.effort_ready_le (settled : Bool) : ready.effort settled ≤ 2 := by
  cases settled <;> simp [effort]

private theorem ScannerState.effort_wake_le (scanner : ScannerState) :
    scanner.wake.effort ≤ scanner.effort + 1 := by
  cases scanner <;> simp [wake, effort]

namespace Pool

variable {pool next : Pool} {session after : Session} {thread : PoolThread}
  {event : Option (QueueEvent FoundPointer)}

/-- Whether no worker is going to wait any more. -/
def settled (pool : Pool) : Bool := pool.queue.closed || pool.queue.failed

/-- What is left for the workers to do with what they have. -/
def labour (settled : Bool) (workers : List WorkerState) : Nat :=
  (workers.map (WorkerState.effort settled)).sum

/-- At least the number of steps that are left to the threads. -/
def effort (pool : Pool) : Nat :=
  8 * pool.feed.bound + pool.scanner.effort + 5 * pool.queue.items.length +
    labour pool.settled pool.workers

private theorem labour_set (settled : Bool) {workers : List WorkerState} {index : Nat}
    {old : WorkerState} (there : workers[index]? = some old) (state : WorkerState) :
    labour settled (workers.set index state) + old.effort settled =
      labour settled workers + state.effort settled := by
  induction workers generalizing index with
  | nil => cases there
  | cons first rest ih =>
      cases index with
      | zero =>
          obtain rfl : first = old := Option.some.inj there
          simp only [labour, List.set_cons_zero, List.map_cons, List.sum_cons]
          omega
      | succ index =>
          have others := ih there
          simp only [labour, List.set_cons_succ, List.map_cons, List.sum_cons] at others ⊢
          omega

private theorem labour_wake_le (settled : Bool) (workers : List WorkerState) :
    labour true (workers.map WorkerState.wake) ≤ labour settled workers := by
  induction workers with
  | nil => exact Nat.le_refl 0
  | cons first rest ih =>
      have one := first.effort_wake_le settled
      simp only [labour, List.map_cons, List.sum_cons] at ih ⊢
      omega

/-- A worker that does its work brings the pool nearer to its end. -/
theorem effort_assign_lt {index : Nat} {old state : WorkerState}
    (there : pool.workers[index]? = some old)
    (less : state.effort pool.settled < old.effort pool.settled) :
    (pool.assign index state).effort < pool.effort := by
  have change := labour_set pool.settled there state
  simp only [effort, assign] at change ⊢
  change _ + labour pool.settled _ < _
  omega

private theorem settled_fail (pool : Pool) (failure : Failure) : (pool.fail failure).settled = true
    := by
  simp [settled, fail]

/-- A scanner that does its work brings the pool nearer to its end. -/
theorem effort_scan_lt {feed : Feed} {scanner : ScannerState}
    (less : 8 * feed.bound + scanner.effort < 8 * pool.feed.bound + pool.scanner.effort) :
    ({ pool with feed, scanner := scanner } : Pool).effort < pool.effort := by
  rw [effort, effort]
  change _ + labour pool.settled _ < _
  dsimp only
  omega

/-- To put a pointer into the queue takes more effort off the scanner than it gives to a worker that
is woken. -/
theorem effort_push_lt {pointer : FoundPointer} {queue : WorkQueue FoundPointer}
    (place : pool.scanner = .pushing pointer) (accepted : pool.queue.push pointer = .accepted queue)
    (woken : Nat) :
    ({ pool with queue, scanner := .pulling }.wakeWorker woken).effort < pool.effort := by
  obtain ⟨-, -, rfl⟩ := WorkQueue.push_eq_accepted accepted
  let pushed : Pool := { pool with
    queue := { pool.queue with items := pool.queue.items ++ [pointer] }
    scanner := .pulling }
  have lower : pushed.effort + 1 < pool.effort := by
    rw [effort, effort, place]
    change _ + labour pool.settled _ + 1 < _
    simp only [pushed, ScannerState.effort, List.length_append, List.length_singleton]
    omega
  obtain ⟨same, -⟩ | ⟨index, there, same⟩ := pushed.wakeWorker_cases woken
  · rw [same]
    omega
  · rw [same]
    have change := labour_set pushed.settled there .ready
    have ready := WorkerState.effort_ready_le pushed.settled
    have asleep : WorkerState.asleep.effort pushed.settled = 1 := rfl
    have raised : (pushed.assign index .ready).effort ≤ pushed.effort + 1 := by
      simp only [effort, assign]
      change _ + labour pushed.settled _ ≤ _
      omega
    omega

/-- Whoever is woken by a failure, the items that are dropped and the workers that do not wait again
make up for a scanner that goes on. -/
theorem effort_fail_le (pool : Pool) (failure : Failure) :
    (pool.fail failure).effort ≤ pool.effort + 1 := by
  have woken := labour_wake_le pool.settled pool.workers
  have raised := pool.scanner.effort_wake_le
  rw [effort, effort, settled_fail]
  simp only [fail, WorkQueue.items_fail, List.length_nil]
  omega

private theorem effort_failScan_lt {failure : Failure} (place : pool.scanner = .failing failure)
    (told : Failure) :
    ({ pool.fail told with scanner := .closing } : Pool).effort < pool.effort := by
  have woken := labour_wake_le pool.settled pool.workers
  rw [effort, effort, place]
  change _ + labour (pool.fail told).settled _ < _
  rw [settled_fail]
  simp only [fail, WorkQueue.items_fail, ScannerState.effort, List.length_nil]
  omega

private theorem effort_failCheck_lt {index : Nat} {failure : Failure}
    (there : pool.workers[index]? = some (.failing failure)) (told : Failure) :
    ((pool.fail told).assign index .ready).effort < pool.effort := by
  have raised := pool.effort_fail_le told
  have change := labour_set (pool.fail told).settled (pool.getElem?_fail told there rfl) .ready
  rw [settled_fail] at change
  have lower : ((pool.fail told).assign index .ready).effort + 2 = (pool.fail told).effort := by
    rw [effort, effort]
    simp only [assign]
    change _ + labour (pool.fail told).settled _ + 2 = _
    rw [settled_fail]
    simp only [WorkerState.effort, if_true] at change
    omega
  omega

private theorem effort_close_lt (place : pool.scanner = .closing) :
    ({ pool with
      queue := pool.queue.close
      scanner := .stopped
      workers := pool.workers.map WorkerState.wake } : Pool).effort < pool.effort := by
  have woken := labour_wake_le pool.settled pool.workers
  rw [effort, effort, place]
  change _ + labour true _ < _
  simp only [WorkQueue.close, ScannerState.effort]
  omega

/-- A worker that takes an item has less to do with it than it was to the queue, even if the scanner
is woken. -/
theorem effort_pop_lt (sound : Sound pool) {index : Nat} {pointer : FoundPointer}
    {queue : WorkQueue FoundPointer} (there : pool.workers[index]? = some .ready)
    (given : pool.queue.pop = .item pointer queue) :
    ({ pool with queue, scanner := pool.scanner.wake }.assign index (.checking pointer)).effort <
      pool.effort := by
  obtain ⟨working, rest, items, rfl⟩ := WorkQueue.pop_eq_item given
  have change := labour_set pool.settled there (.checking pointer)
  have checking : (WorkerState.checking pointer).effort pool.settled = 5 := rfl
  -- a closed queue has no scanner to be woken, and an open one keeps its workers waiting
  have woken : pool.scanner.wake.effort < pool.scanner.effort +
      WorkerState.ready.effort pool.settled := by
    have raised := pool.scanner.effort_wake_le
    cases closed : pool.queue.closed with
    | true =>
        rw [sound.closed.mp closed, settled, closed]
        exact Nat.zero_lt_one
    | false =>
        rw [settled, closed, working]
        exact Nat.lt_of_le_of_lt raised (Nat.lt_succ_self _)
  rw [effort, effort, items, List.length_cons]
  change 8 * pool.feed.bound + pool.scanner.wake.effort + 5 * rest.length +
    labour pool.settled (pool.workers.set index (.checking pointer)) < _
  omega

/-- Every step of a thread that neither waits nor has stopped brings the pool nearer to its end. -/
theorem Move.effort_lt (move : Move pool session thread event next after) (sound : Sound pool)
    (able : pool.CanStep thread) : next.effort < pool.effort := by
  cases move with
  | rests idle => exact absurd able idle
  | feedFails place | feedEnds place | givesUp place | awaitsRoom place =>
      apply effort_scan_lt
      rw [place]
      simp only [ScannerState.effort]
      omega
  | delivers place asked | misdelivers place asked =>
      have lower := Feed.bound_of_next asked
      apply effort_scan_lt
      rw [place]
      simp only [ScannerState.effort]
      omega
  | pushes place accepted => exact effort_push_lt place accepted _
  | failsScan place => exact effort_failScan_lt place _
  | closes place => exact effort_close_lt place
  | pops there given => exact effort_pop_lt sound there given
  | retires there finished =>
      apply effort_assign_lt there
      cases pool.settled <;> simp [WorkerState.effort]
  | awaitsWork there empty =>
      obtain ⟨working, opened, -⟩ := WorkQueue.pop_eq_empty.mp empty
      apply effort_assign_lt there
      rw [settled, opened, working]
      exact Nat.lt_succ_self 1
  | failsCheck there => exact effort_failCheck_lt there _
  | findsNothing there | drops there | reports there =>
      apply effort_assign_lt there
      exact Nat.lt_of_le_of_lt (WorkerState.effort_ready_le _) (by simp [WorkerState.effort])
  | checkFails there | finds there | keeps there =>
      apply effort_assign_lt there
      simp [WorkerState.effort]

private theorem canStep_of_turn? (turn : pool.turn? = some thread) : pool.CanStep thread := by
  unfold turn? at turn
  split at turn
  · rename_i index found
    cases turn
    obtain ⟨within, active, -⟩ := List.findIdx?_eq_some_iff_getElem.mp found
    exact ⟨pool.workers[index], List.getElem?_eq_getElem within, active⟩
  · split at turn
    · cases turn
      assumption
    · cases turn

private theorem not_canStep_of_turn? (turn : pool.turn? = none) (thread : PoolThread) :
    ¬pool.CanStep thread := by
  unfold turn? at turn
  split at turn
  · cases turn
  rename_i idle
  split at turn
  · cases turn
  rename_i resting
  cases thread with
  | scanner woken => exact resting
  | worker index =>
      rintro ⟨worker, there, active⟩
      rw [List.findIdx?_eq_none_iff] at idle
      rw [idle worker (List.mem_of_getElem? there)] at active
      cases active

private theorem effort_step_lt (sound : Sound pool) (session : Session) (able : pool.CanStep thread)
    : Sound (pool.step thread session).1 ∧ (pool.step thread session).1.effort < pool.effort := by
  obtain ⟨event, move⟩ := pool.move_step thread session
  exact ⟨move.sound sound, move.effort_lt sound able⟩

/-- Enough turns end a pool. -/
theorem isOver_takeTurns {count : Nat} (sound : Sound pool) (enough : pool.effort ≤ count)
    (session : Session) : (takeTurns count pool session).1.isOver = true := by
  induction count generalizing pool session with
  | zero =>
      change pool.isOver = true
      by_contra unfinished
      obtain ⟨thread, able⟩ := sound.exists_canStep (by simpa using unfinished)
      have less := (effort_step_lt sound session able).2
      omega
  | succ count ih =>
      unfold takeTurns
      cases turn : pool.turn? with
      | none =>
          change pool.isOver = true
          by_contra unfinished
          obtain ⟨thread, able⟩ := sound.exists_canStep (by simpa using unfinished)
          exact not_canStep_of_turn? turn thread able
      | some thread =>
          obtain ⟨still, less⟩ := effort_step_lt sound session (canStep_of_turn? turn)
          exact ih still (by omega) _

private theorem effort_opening (store : Store) (feed : Feed) (limit workers : Nat) :
    (opening store feed limit workers).effort = 8 * feed.bound + 3 + 2 * workers := by
  simp [effort, opening, labour, settled, ScannerState.effort, WorkerState.effort,
    Nat.mul_comm workers]

/-- The turns that the program gives its threads suffice. -/
theorem isOver_takeTurns_start (store : Store) (feed : Feed) {workers : Nat}
    (staff : 0 < workers) (session : Session) :
    (takeTurns (start store feed workers).turnBound (start store feed workers) session).1.isOver =
      true := by
  have room : 0 < workers * queuedPerWorker := Nat.mul_pos staff (by decide)
  apply isOver_takeTurns (sound_opening store feed room staff)
  have count : (start store feed workers).workers.length = workers := List.length_replicate
  rw [effort_opening, turnBound, count]
  change _ ≤ 8 * (feed.bound + 1) + 4 * workers
  omega

/-- A schedule that gives turns only to threads that can take them. -/
def Busy : Pool → Session → List PoolThread → Prop
  | _, _, [] => True
  | pool, session, thread :: rest =>
    pool.CanStep thread ∧ Busy (pool.step thread session).1 (pool.step thread session).2 rest

/-- Whoever takes turns, there are only so many to be taken. -/
theorem Busy.length_le {schedule : List PoolThread} (sound : Sound pool)
    (busy : Busy pool session schedule) :
    schedule.length + (pool.follow schedule session).1.effort ≤ pool.effort := by
  induction schedule generalizing pool session with
  | nil => exact Nat.le_of_eq (Nat.zero_add _)
  | cons thread rest ih =>
      obtain ⟨able, others⟩ := busy
      obtain ⟨still, less⟩ := effort_step_lt sound session able
      have fewer := ih still others
      rw [follow_cons, List.length_cons]
      omega

/-- Wherever a schedule has led a sound pool, there are turns that bring it to its end. -/
theorem Sound.exists_completion (sound : Sound pool) (session : Session) :
    ∃ rest, Busy pool session rest ∧ (pool.follow rest session).1.isOver = true := by
  induction size : pool.effort using Nat.strong_induction_on generalizing pool session with
  | _ effort ih =>
      cases unfinished : pool.isOver with
      | true => exact ⟨[], trivial, unfinished⟩
      | false =>
          obtain ⟨thread, able⟩ := sound.exists_canStep unfinished
          obtain ⟨still, less⟩ := effort_step_lt sound session able
          obtain ⟨rest, busy, done⟩ := ih _ (size ▸ less) still _ rfl
          exact ⟨thread :: rest, ⟨able, busy⟩, done⟩

/-- Two schedules are followed one after the other. -/
theorem follow_append (earlier later : List PoolThread) (session : Session) :
    pool.follow (earlier ++ later) session =
      (pool.follow earlier session).1.follow later (pool.follow earlier session).2 := by
  rw [follow, List.foldlM_append]
  rfl

/-- Whatever turns the threads have taken, they can come to their end. -/
theorem exists_isOver_follow_append (sound : Sound pool) (schedule : List PoolThread)
    (session : Session) :
    ∃ rest, (pool.follow (schedule ++ rest) session).1.isOver = true := by
  obtain ⟨events, course⟩ := course_follow schedule pool session
  have reached : Sound (pool.follow schedule session).1 :=
    course.keeps (fun {_ _ _ _ _ _} sound move => move.sound sound) sound
  obtain ⟨rest, -, done⟩ := reached.exists_completion (pool.follow schedule session).2
  rw [← follow_append] at done
  exact ⟨rest, done⟩

/-- Whoever waits in a pool goes on only because a call on the queue has woken him. -/
structure Wakes (pool next : Pool) (event : Option (QueueEvent FoundPointer)) : Prop where
  worker : ∀ index : Nat, pool.workers[index]? = some .asleep →
    next.workers[index]? = some .asleep ∨ next.workers[index]? = some .ready ∧
      ((∃ pointer, event = some (.pushed pointer)) ∨ event = some .closed ∨
        ∃ failure, event = some (.failed failure))
  scanner : ∀ pointer, pool.scanner = .asleep pointer →
    next.scanner = .asleep pointer ∨ next.scanner = .pushing pointer ∧
      ((∃ popped, event = some (.popped popped)) ∨ ∃ failure, event = some (.failed failure))

private theorem asleep_set {workers : List WorkerState} {index other : Nat} {old : WorkerState}
    (there : workers[index]? = some old) (awake : old ≠ .asleep) (state : WorkerState)
    (asleep : workers[other]? = some .asleep) :
    (workers.set index state)[other]? = some .asleep := by
  rw [List.getElem?_set_ne]
  · exact asleep
  · rintro rfl
    exact awake (Option.some.inj (there.symm.trans asleep))

private theorem ready_of_wake {workers : List WorkerState} {index : Nat}
    (asleep : workers[index]? = some .asleep) :
    (workers.map WorkerState.wake)[index]? = some .ready := by
  rw [List.getElem?_map, asleep]
  rfl

private theorem Move.wakes (move : Move pool session thread event next after) : Wakes pool next
    event := by
  have elsewhere {state : ScannerState} (place : pool.scanner = state)
      (awake : ∀ pointer, state ≠ .asleep pointer) (pointer : FoundPointer) :
      pool.scanner ≠ .asleep pointer := by
    rw [place]
    exact awake pointer
  cases move with
  | rests => exact ⟨fun _ asleep => .inl asleep, fun _ asleep => .inl asleep⟩
  | feedFails place | feedEnds place | delivers place | misdelivers place | givesUp place
  | awaitsRoom place =>
      exact ⟨fun _ asleep => .inl asleep, fun pointer asleep =>
        absurd asleep (elsewhere place (fun _ => ScannerState.noConfusion) pointer)⟩
  | failsScan place =>
      exact ⟨fun _ asleep => .inr ⟨ready_of_wake asleep, .inr (.inr ⟨_, rfl⟩)⟩,
        fun pointer asleep =>
          absurd asleep (elsewhere place (fun _ => ScannerState.noConfusion) pointer)⟩
  | closes place =>
      exact ⟨fun _ asleep => .inr ⟨ready_of_wake asleep, .inr (.inl rfl)⟩, fun pointer asleep =>
        absurd asleep (elsewhere place (fun _ => ScannerState.noConfusion) pointer)⟩
  | @pushes woken pointer queue place =>
      refine ⟨fun other asleep => ?_, fun pointer asleep =>
        absurd asleep (elsewhere place (fun _ => ScannerState.noConfusion) pointer)⟩
      obtain ⟨same, -⟩ | ⟨index, there, same⟩ :=
        wakeWorker_cases { pool with queue, scanner := .pulling } woken
      · rw [same]
        exact .inl asleep
      · rw [same]
        by_cases chosen : index = other
        · subst chosen
          refine .inr ⟨?_, .inl ⟨pointer, rfl⟩⟩
          exact List.getElem?_set_self (List.getElem?_eq_some_iff.mp there).1
        · left
          rw [assign, List.getElem?_set_ne chosen]
          exact asleep
  | pops there =>
      refine ⟨fun _ asleep => .inl (asleep_set there WorkerState.noConfusion _ asleep),
        fun pointer asleep => .inr ⟨?_, .inl ⟨_, rfl⟩⟩⟩
      change pool.scanner.wake = _
      rw [asleep]
      rfl
  | retires there | awaitsWork there | checkFails there | findsNothing there | finds there
  | drops there | keeps there | reports there =>
      exact ⟨fun _ asleep => .inl (asleep_set there WorkerState.noConfusion _ asleep),
        fun _ asleep => .inl asleep⟩
  | @failsCheck index failure there =>
      refine ⟨fun other asleep => .inr ⟨?_, .inr (.inr ⟨_, rfl⟩)⟩,
        fun pointer asleep => .inr ⟨?_, .inr ⟨_, rfl⟩⟩⟩
      · change ((pool.workers.map WorkerState.wake).set index .ready)[other]? = some .ready
        rw [List.getElem?_set_ne, ready_of_wake asleep]
        rintro rfl
        cases there.symm.trans asleep
      · change pool.scanner.wake = _
        rw [asleep]
        rfl

/-- The queue remembers no failure without a kind. -/
theorem kind_classify (failure : Failure) : (classify failure).kind ≠ .foreign := by
  cases failure <;> exact FailureKind.noConfusion

private theorem Move.kind_ne_foreign {failure : Failure}
    (move : Move pool session thread (some (.failed failure)) next after) :
    failure.kind ≠ .foreign := by
  cases move with
  | failsScan | failsCheck => exact kind_classify _

private theorem Course.kind_ne_foreign {last : Pool} {schedule : List PoolThread}
    {events : List (QueueEvent FoundPointer)} {failure : Failure}
    (course : Course pool session schedule events last after)
    (failed : .failed failure ∈ events) : failure.kind ≠ .foreign := by
  induction course with
  | nil => cases failed
  | @cons _ _ _ _ _ _ _ _ event events move _ ih =>
      rcases List.mem_append.mp failed with first | later
      · obtain rfl : event = some (.failed failure) := Option.mem_toList.mp first
        exact move.kind_ne_foreign
      · exact ih later

/-- **Workers never get stuck.** With any number of workers, any limit of the queue and any
schedule, the calls on the queue that have returned left it orderly: it is never fuller than its
limit, gives its items in order and each at most once, and after the first failure it is empty,
takes and gives nothing, and keeps that failure, as one of the two sorts; a queue that has not
failed keeps none. As long as the pool is not over, some thread can take a step that brings it
nearer to its end, and threads that wait go on only by a call that wakes them. So every schedule can
be completed, and threads that take only turns that they can take come to the end in the end,
whoever takes them. -/
theorem never_stuck (store : Store) (feed : Feed) {limit workers : Nat} (room : 0 < limit)
    (staff : 0 < workers) (schedule : List PoolThread) (session : Session) :
    let reached := (opening store feed limit workers).follow schedule session
    (∃ events, Course (opening store feed limit workers) session schedule events reached.1
        reached.2 ∧
      WorkQueue.Orderly limit events reached.1.queue ∧
      (reached.1.queue.failed = false →
        reached.1.queue.sysError = none ∧ reached.1.queue.rtError = none) ∧
      (reached.1.queue.failed = true → ∃ failure,
        QueueEvent.firstFailure? events = some failure ∧
          reached.1.queue.failure = some failure ∧
          ((∃ errno, failure.kind = .system errno) ∧ reached.1.queue.sysError = some failure ∧
              reached.1.queue.rtError = none ∨
            (∃ code, failure.kind = .coded code) ∧ reached.1.queue.sysError = none ∧
              reached.1.queue.rtError = some failure))) ∧
      (reached.1.isOver = false → ∃ thread, reached.1.CanStep thread ∧
        (reached.1.step thread reached.2).1.effort < reached.1.effort) ∧
      (∀ thread, ∃ event, Move reached.1 reached.2 thread event
          (reached.1.step thread reached.2).1 (reached.1.step thread reached.2).2 ∧
        Wakes reached.1 (reached.1.step thread reached.2).1 event) ∧
      (∃ rest, Busy reached.1 reached.2 rest ∧
        (reached.1.follow rest reached.2).1.isOver = true) ∧
      ∀ rest, Busy reached.1 reached.2 rest →
        rest.length + (reached.1.follow rest reached.2).1.effort ≤ reached.1.effort := by
  intro reached
  obtain ⟨events, course⟩ := course_follow schedule (opening store feed limit workers) session
  have sound : Sound reached.1 :=
    course.keeps (fun {_ _ _ _ _ _} sound move => move.sound sound)
      (sound_opening store feed room staff)
  have history : WorkQueue.History limit ([] ++ events) reached.1.queue := course.history .start
  have orderly : WorkQueue.Orderly limit events reached.1.queue := history.orderly
  have keeps := orderly.keeps
  have told (failure : Failure) (first : QueueEvent.firstFailure? events = some failure) :
      failure.kind ≠ .foreign := by
    obtain ⟨event, member, told⟩ := List.exists_of_findSome?_eq_some first
    cases event with
    | failed other =>
        cases told
        exact course.kind_ne_foreign member
    | pushed _ | refused _ | popped _ | finished | closed => cases told
  refine ⟨⟨events, course, orderly, fun working => ?_, fun failed => ?_⟩, fun unfinished => ?_,
    fun thread => ?_, sound.exists_completion reached.2, fun _ busy => busy.length_le sound⟩
  · rw [keeps.sysError, keeps.rtError, keeps.working_iff.mp working]
    exact ⟨rfl, rfl⟩
  · obtain ⟨failure, first⟩ := Option.isSome_iff_exists.mp (keeps.failed_iff.mp failed)
    rw [first] at keeps
    exact ⟨failure, first, keeps.failure_eq, keeps.sysError_or_rtError (told failure first)⟩
  · obtain ⟨thread, able⟩ := sound.exists_canStep unfinished
    exact ⟨thread, able, (effort_step_lt sound reached.2 able).2⟩
  · obtain ⟨event, move⟩ := reached.1.move_step thread reached.2
    exact ⟨event, move, move.wakes⟩

/-- Two workers wait, one place in the queue is taken and the scanner waits for room: then the
worker that was woken can go on. -/
theorem never_stuck_of_full_queue :
    let pool := opening ⟨ascii "s"⟩ [.listed [.pointer {}, .pointer {}] none] 1 2
    let schedule : List PoolThread :=
      [.worker 0, .worker 1, .scanner 1, .scanner 1, .scanner 0, .scanner 0]
    let reached := pool.follow schedule {}
    reached.1.scanner = .asleep {} ∧ reached.1.workers = [.asleep, .ready] ∧
      ∃ thread, reached.1.CanStep thread ∧
        (reached.1.step thread reached.2).1.effort < reached.1.effort := by
  intro pool schedule reached
  obtain ⟨-, goesOn, -⟩ :=
    never_stuck ⟨ascii "s"⟩ [.listed [.pointer {}, .pointer {}] none] Nat.one_pos Nat.two_pos
      schedule {}
  exact ⟨rfl, rfl, goesOn rfl⟩

end Pool

end StoreAudit
