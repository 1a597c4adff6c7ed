import StoreAudit.Check.Object
import StoreAudit.Check.WorkQueue

/-!
# Checking with several workers

One thread scans and puts pointers into a queue, and workers take them out and check their objects.
A pool is the state of these threads between two of their steps; a step is what a thread does
without anybody interfering. A thread that waits is woken by a step of another one. `Pool.run` is
one order of the steps: an item is checked as soon as it is in the queue.
-/

namespace StoreAudit

/-- Where the scanning thread is. -/
inductive ScannerState where
  /-- About to ask the feed for an item. -/
  | pulling
  /-- About to put a pointer into the queue. -/
  | pushing (pointer : FoundPointer)
  /-- Waiting for room in the queue. -/
  | asleep (pointer : FoundPointer)
  /-- About to fail the queue with what stopped the scan. -/
  | failing (failure : Failure)
  /-- About to close the queue. -/
  | closing
  | stopped

/-- Where a worker is. -/
inductive WorkerState where
  /-- About to take a pointer out of the queue. -/
  | ready
  /-- Waiting for a pointer in the queue. -/
  | asleep
  /-- About to check an object. -/
  | checking (pointer : FoundPointer)
  /-- About to see whether the queue has failed, with a finding to report. -/
  | judging (finding : Finding)
  /-- About to report a finding. -/
  | reporting (finding : Finding)
  /-- About to fail the queue with what stopped a check. -/
  | failing (failure : Failure)
  | stopped

/-- The state of all threads of a check. -/
structure Pool where
  store : Store
  feed : Feed
  queue : WorkQueue FoundPointer
  scanner : ScannerState := .pulling
  workers : List WorkerState

/-- The thread that takes a step; the number says which of the waiting workers a scanner wakes. -/
inductive PoolThread where
  | scanner (woken : Nat)
  | worker (index : Nat)
  deriving DecidableEq, Repr

namespace WorkerState

/-- Whether a worker waits. -/
def isAsleep : WorkerState → Bool
  | asleep => true
  | _ => false

/-- Whether a worker can take a step. -/
def isActive : WorkerState → Bool
  | asleep | stopped => false
  | _ => true

/-- The worker after everybody was woken. -/
def wake : WorkerState → WorkerState
  | asleep => ready
  | other => other

end WorkerState

namespace ScannerState

/-- Whether the scanner can take a step. -/
def isActive : ScannerState → Bool
  | asleep _ | stopped => false
  | _ => true

/-- The scanner after it was woken. -/
def wake : ScannerState → ScannerState
  | asleep pointer => pushing pointer
  | other => other

end ScannerState

namespace Pool

/-- How many pointers per worker the queue takes. -/
def queuedPerWorker : Nat := 16

/-- The largest number of workers. -/
def maxWorkers : Nat := 64

/-- The number of workers for a number asked for. -/
def workersFor (jobs : Int) : Nat := (max 1 (min jobs maxWorkers)).toNat

/-- The pool at the start. -/
def start (store : Store) (feed : Feed) (workers : Nat) : Pool :=
  { store, feed
    queue := { limit := workers * queuedPerWorker }
    workers := List.replicate workers .ready }

/-- The pool with a failed queue and everybody woken. -/
def fail (pool : Pool) (failure : Failure) : Pool :=
  { pool with
    queue := pool.queue.fail failure
    scanner := pool.scanner.wake
    workers := pool.workers.map WorkerState.wake }

/-- The failure by which a queue remembers one: a failure of no class becomes one of scanning. -/
def classify : Failure → Failure
  | .foreign message => .reported .scanFailed message.beforeNul
  | failure => failure

/-- The pool with one waiting worker woken, if any waits. -/
def wakeWorker (pool : Pool) (woken : Nat) : Pool :=
  let waiting := pool.workers.zipIdx.filter fun (worker, _) => worker.isAsleep
  match waiting[woken % waiting.length]? with
  | some (_, index) => { pool with workers := pool.workers.set index .ready }
  | none => pool

/-- A step of the scanner. -/
def stepScanner (pool : Pool) (woken : Nat) : StateM Session Pool := do
  match pool.scanner with
  | .pulling =>
    match ← pool.feed.next.run with
    | .error failure => pure { pool with scanner := .failing failure }
    | .ok none => pure { pool with scanner := .closing }
    | .ok (some (item, feed)) =>
      match item.onlyPointer with
      | .ok pointer => pure { pool with feed, scanner := .pushing pointer }
      | .error failure => pure { pool with feed, scanner := .failing failure }
  | .pushing pointer =>
    match pool.queue.push pointer with
    | .accepted queue => pure ({ pool with queue, scanner := .pulling }.wakeWorker woken)
    | .refused => pure { pool with scanner := .closing }
    | .full => pure { pool with scanner := .asleep pointer }
  | .failing failure => pure { pool.fail (classify failure) with scanner := .closing }
  | .closing =>
    pure { pool with
      queue := pool.queue.close
      scanner := .stopped
      workers := pool.workers.map WorkerState.wake }
  | .asleep _ | .stopped => pure pool

/-- A step of a worker. -/
def stepWorker (pool : Pool) (index : Nat) : StateM Session Pool := do
  let become (pool : Pool) (state : WorkerState) : Pool :=
    { pool with workers := pool.workers.set index state }
  match pool.workers[index]? with
  | some .ready =>
    match pool.queue.pop with
    | .item pointer queue =>
      pure (become { pool with queue, scanner := pool.scanner.wake } (.checking pointer))
    | .finished => pure (become pool .stopped)
    | .empty => pure (become pool .asleep)
  | some (.checking pointer) =>
    match ← (pool.store.checkObject pointer).run with
    | .error failure => pure (become pool (.failing failure))
    | .ok none => pure (become pool .ready)
    | .ok (some finding) => pure (become pool (.judging finding))
  | some (.judging finding) =>
    pure (become pool (if pool.queue.failed then .ready else .reporting finding))
  | some (.reporting finding) =>
    Audit.report finding
    pure (become pool .ready)
  | some (.failing failure) => pure (become (pool.fail (classify failure)) .ready)
  | some .asleep | some .stopped | none => pure pool

/-- A step of a thread. -/
def step (pool : Pool) : PoolThread → StateM Session Pool
  | .scanner woken => pool.stepScanner woken
  | .worker index => pool.stepWorker index

/-- The steps of a schedule, one after the other. -/
def follow (pool : Pool) (schedule : List PoolThread) : StateM Session Pool :=
  schedule.foldlM step pool

/-- Whether every thread has stopped. -/
def isOver (pool : Pool) : Bool :=
  (match pool.scanner with
    | .stopped => true
    | _ => false) &&
  pool.workers.all fun worker =>
    match worker with
    | .stopped => true
    | _ => false

/-- The thread whose turn it is: a worker that can go on, or else the scanner. -/
def turn? (pool : Pool) : Option PoolThread :=
  match pool.workers.findIdx? WorkerState.isActive with
  | some index => some (.worker index)
  | none => if pool.scanner.isActive then some (.scanner 0) else none

/-- Lets the threads take their turns, at most `count` times. -/
def takeTurns : Nat → Pool → StateM Session Pool
  | 0, pool => pure pool
  | count + 1, pool =>
    match pool.turn? with
    | none => pure pool
    | some thread => do takeTurns count (← pool.step thread)

/-- At least the number of turns that are taken: eight for each item and its end, and four for each
worker. -/
def turnBound (pool : Pool) : Nat := 8 * (pool.feed.bound + 1) + 4 * pool.workers.length

/-- Lets the threads take their turns until all have stopped, and fails with the failure of the
queue if it has one. -/
def run (pool : Pool) : Audit Unit := do
  let last ← takeTurns pool.turnBound pool
  match last.queue.failure with
  | some failure => throw failure
  | none => pure ()

end Pool

namespace Store

/-- Checks the objects of a feed with several workers. -/
def checkTogether (store : Store) (feed : Feed) (workers : Nat) : Audit Unit := do
  Audit.trace (ascii "verifying objects with " ++ Decimal.ofNat workers ++ ascii " workers")
  (Pool.start store feed workers).run

/-- Checks the objects of a feed with as many workers as asked for, within limits. -/
def checkObjects (store : Store) (feed : Feed) (jobs : Int) : Audit Unit :=
  let workers := Pool.workersFor jobs
  if workers = 1 then store.checkInOrder feed else store.checkTogether feed workers

end Store

end StoreAudit
