import StoreAudit.Failure.Basic

/-!
# Work queues

The queue between the scan and the workers holds a bounded number of items. It is closed when no
more items come, and it fails with the first failure, after which nothing goes in or comes out.
-/

namespace StoreAudit

/-- A bounded queue of work. A failed system call and any other failure are kept in places of their
own. -/
structure WorkQueue (α : Type) where
  limit : Nat
  items : List α := []
  closed : Bool := false
  failed : Bool := false
  sysError : Option Failure := none
  rtError : Option Failure := none

/-- Whether a failure is that of a system call. -/
def Failure.isSystem : Failure → Bool
  | system _ _ => true
  | _ => false

namespace WorkQueue

variable {α : Type}

/-- What comes of an attempt to put an item in. -/
inductive PushOutcome (α : Type) where
  | accepted (queue : WorkQueue α)
  /-- The queue has failed. -/
  | refused
  /-- There is no room now. -/
  | full

/-- What comes of an attempt to take an item out. -/
inductive PopOutcome (α : Type) where
  | item (value : α) (queue : WorkQueue α)
  /-- There will be no more items. -/
  | finished
  /-- There is no item now. -/
  | empty

/-- Puts an item in at the end. -/
def push (queue : WorkQueue α) (value : α) : PushOutcome α :=
  if queue.failed then .refused
  else if queue.items.length ≥ queue.limit then .full
  else .accepted { queue with items := queue.items ++ [value] }

/-- Takes the first item out. -/
def pop (queue : WorkQueue α) : PopOutcome α :=
  if queue.failed then .finished
  else match queue.items with
    | value :: rest => .item value { queue with items := rest }
    | [] => if queue.closed then .finished else .empty

/-- Says that no more items come. -/
def close (queue : WorkQueue α) : WorkQueue α := { queue with closed := true }

/-- Drops the items of a queue that fails. -/
def setFailed (queue : WorkQueue α) : WorkQueue α := { queue with items := [], failed := true }

/-- Fails the queue with a failed system call, which is kept if it is the first failure. -/
def failSystem (queue : WorkQueue α) (failure : Failure) : WorkQueue α :=
  (if queue.failed then queue else { queue with sysError := some failure }).setFailed

/-- Fails the queue with a failure that is not that of a system call. -/
def failOther (queue : WorkQueue α) (failure : Failure) : WorkQueue α :=
  (if queue.failed then queue else { queue with rtError := some failure }).setFailed

/-- Fails the queue in the way that goes with the failure. -/
def fail (queue : WorkQueue α) (failure : Failure) : WorkQueue α :=
  if failure.isSystem then queue.failSystem failure else queue.failOther failure

/-- The failure that is thrown to whoever asks at the end: a failed system call comes first. -/
def failure (queue : WorkQueue α) : Option Failure := queue.sysError.or queue.rtError

@[simp] theorem items_fail (queue : WorkQueue α) (failure : Failure) :
    (queue.fail failure).items = [] := by
  unfold fail
  split <;> rfl

@[simp] theorem failed_fail (queue : WorkQueue α) (failure : Failure) :
    (queue.fail failure).failed = true := by
  unfold fail
  split <;> rfl

@[simp] theorem closed_fail (queue : WorkQueue α) (failure : Failure) :
    (queue.fail failure).closed = queue.closed := by
  unfold fail failSystem failOther setFailed
  cases queue.failed <;> cases failure.isSystem <;> rfl

@[simp] theorem limit_fail (queue : WorkQueue α) (failure : Failure) :
    (queue.fail failure).limit = queue.limit := by
  unfold fail failSystem failOther setFailed
  cases queue.failed <;> cases failure.isSystem <;> rfl

/-- A failed queue takes nothing in. -/
theorem push_of_failed {queue : WorkQueue α} (failed : queue.failed = true) (value : α) :
    queue.push value = .refused := by
  simp [push, failed]

/-- Nothing comes out of a failed queue. -/
theorem pop_of_failed {queue : WorkQueue α} (failed : queue.failed = true) :
    queue.pop = .finished := by
  simp [pop, failed]

end WorkQueue

end StoreAudit
