import StoreAudit.Check.WorkQueue

/-!
# Histories of a work queue

An event is a call on a queue that has returned, with what it returned. Calls that wait are no
events yet. Whatever the order of the calls, a queue is orderly (`WorkQueue.History.orderly`): it
keeps within its limit, it gives its items in the order in which it took them, and after the first
failure, which it keeps in the place for its sort (`WorkQueue.Keeps`), nothing goes in or comes out.
-/

namespace StoreAudit

/-- A call on a queue that has returned. -/
inductive QueueEvent (α : Type) where
  | pushed (value : α)
  /-- A push that put nothing in. -/
  | refused (value : α)
  | popped (value : α)
  /-- A pop that took nothing out. -/
  | finished
  | closed
  | failed (failure : Failure)

namespace QueueEvent

variable {α : Type}

/-- The item that an event put in. -/
def pushed? : QueueEvent α → Option α
  | pushed value => some value
  | _ => none

/-- The item that an event took out. -/
def popped? : QueueEvent α → Option α
  | popped value => some value
  | _ => none

/-- The failure that an event told the queue. -/
def failure? : QueueEvent α → Option Failure
  | failed failure => some failure
  | _ => none

/-- The items put in, in order. -/
def pushes (events : List (QueueEvent α)) : List α := events.filterMap pushed?

/-- The items taken out, in order. -/
def pops (events : List (QueueEvent α)) : List α := events.filterMap popped?

/-- The failure that came first. -/
def firstFailure? (events : List (QueueEvent α)) : Option Failure := events.findSome? failure?

private theorem pushes_concat (events : List (QueueEvent α)) (event : QueueEvent α) :
    pushes (events ++ [event]) = pushes events ++ event.pushed?.toList := by
  cases event <;> simp [pushes, pushed?]

private theorem pops_concat (events : List (QueueEvent α)) (event : QueueEvent α) :
    pops (events ++ [event]) = pops events ++ event.popped?.toList := by
  cases event <;> simp [pops, popped?]

private theorem pushes_concat_of_none {events : List (QueueEvent α)} {event : QueueEvent α}
    (noPush : event.pushed? = none) : pushes (events ++ [event]) = pushes events := by
  rw [pushes_concat, noPush]
  exact List.append_nil _

private theorem pops_concat_of_none {events : List (QueueEvent α)} {event : QueueEvent α}
    (noPop : event.popped? = none) : pops (events ++ [event]) = pops events := by
  rw [pops_concat, noPop]
  exact List.append_nil _

private theorem firstFailure?_append (events more : List (QueueEvent α)) :
    firstFailure? (events ++ more) = (firstFailure? events).or (firstFailure? more) :=
  List.findSome?_append

end QueueEvent

namespace WorkQueue

open QueueEvent

variable {α : Type}

/-- An item is accepted where there is room, and goes to the end. -/
theorem push_eq_accepted {queue later : WorkQueue α} {value : α}
    (accepted : queue.push value = .accepted later) :
    queue.failed = false ∧ queue.items.length < queue.limit ∧
      later = { queue with items := queue.items ++ [value] } := by
  unfold push at accepted
  split at accepted
  · cases accepted
  rename_i working
  split at accepted
  · cases accepted
  rename_i room
  cases accepted
  exact ⟨by simpa using working, by omega, rfl⟩

/-- Only a queue that has failed refuses items. -/
theorem push_eq_refused {queue : WorkQueue α} {value : α} :
    queue.push value = .refused ↔ queue.failed = true := by
  unfold push
  by_cases failed : queue.failed = true
  · simp [failed]
  · by_cases full : queue.items.length ≥ queue.limit <;> simp [failed, full]

/-- A working queue is full at its limit. -/
theorem push_eq_full {queue : WorkQueue α} {value : α} :
    queue.push value = .full ↔ queue.failed = false ∧ queue.limit ≤ queue.items.length := by
  unfold push
  cases queue.failed with
  | true => simp
  | false => by_cases full : queue.limit ≤ queue.items.length <;> simp [full]

/-- A working queue gives its first item. -/
theorem pop_eq_item {queue later : WorkQueue α} {value : α}
    (given : queue.pop = .item value later) :
    queue.failed = false ∧ ∃ rest, queue.items = value :: rest ∧
      later = { queue with items := rest } := by
  unfold pop at given
  split at given
  · cases given
  rename_i working
  split at given
  · rename_i first rest items
    cases given
    exact ⟨by simpa using working, rest, items, rfl⟩
  · split at given <;> cases given

/-- A queue is finished once it has failed, or is closed and empty. -/
theorem pop_eq_finished {queue : WorkQueue α} :
    queue.pop = .finished ↔
      queue.failed = true ∨ queue.closed = true ∧ queue.items = [] := by
  unfold pop
  by_cases failed : queue.failed = true
  · simp [failed]
  · cases items : queue.items with
    | cons first rest => simp [failed]
    | nil => cases closed : queue.closed <;> simp [failed]

/-- A working queue without items makes callers wait until it is closed. -/
theorem pop_eq_empty {queue : WorkQueue α} :
    queue.pop = .empty ↔ queue.failed = false ∧ queue.closed = false ∧ queue.items = [] := by
  unfold pop
  cases queue.failed with
  | true => simp
  | false =>
      cases items : queue.items with
      | cons first rest => simp
      | nil => cases closed : queue.closed <;> simp

/-- What a call that returns makes of a queue. -/
inductive Serves (queue : WorkQueue α) : QueueEvent α → WorkQueue α → Prop
  | pushed {value : α} {later : WorkQueue α} : queue.push value = .accepted later →
      Serves queue (.pushed value) later
  | refused {value : α} : queue.push value = .refused → Serves queue (.refused value) queue
  | popped {value : α} {later : WorkQueue α} : queue.pop = .item value later →
      Serves queue (.popped value) later
  | finished : queue.pop = .finished → Serves queue .finished queue
  | closed : Serves queue .closed queue.close
  | failed (failure : Failure) : Serves queue (.failed failure) (queue.fail failure)

/-- The queue has come about from an empty one by calls, whatever their order. -/
inductive History (limit : Nat) : List (QueueEvent α) → WorkQueue α → Prop
  | start : History limit [] { limit }
  | next {events : List (QueueEvent α)} {event : QueueEvent α} {queue later : WorkQueue α} :
      History limit events queue → queue.Serves event later →
      History limit (events ++ [event]) later

/-- What a queue keeps of the first failure, if there was one: that there was one, and the failure
itself in the place for its sort. -/
structure Keeps (queue : WorkQueue α) (first : Option Failure) : Prop where
  failed : queue.failed = first.isSome
  sysError : queue.sysError = first.filter Failure.isSystem
  rtError : queue.rtError = first.filter fun failure => !failure.isSystem

/-- A new queue keeps no failure. -/
theorem keeps_start (limit : Nat) : ({ limit } : WorkQueue α).Keeps none := ⟨rfl, rfl, rfl⟩

namespace Keeps

variable {queue later : WorkQueue α} {first : Option Failure}

/-- What is thrown at the end is the first failure. -/
theorem failure_eq (keeps : queue.Keeps first) : queue.failure = first := by
  rw [failure, keeps.sysError, keeps.rtError]
  cases first with
  | none => rfl
  | some failure => cases sort : failure.isSystem <;> simp [sort]

/-- A queue keeps what it throws. -/
theorem self (keeps : queue.Keeps first) : queue.Keeps queue.failure := by
  rwa [keeps.failure_eq]

/-- A queue has failed exactly if it keeps a failure. -/
theorem failed_iff (keeps : queue.Keeps first) : queue.failed = true ↔ first.isSome = true := by
  rw [keeps.failed]

/-- A queue works exactly as long as it keeps no failure. -/
theorem working_iff (keeps : queue.Keeps first) : queue.failed = false ↔ first = none := by
  rw [keeps.failed, Option.isSome_eq_false_iff, Option.isNone_iff_eq_none]

/-- A failure with a kind of its own is kept in exactly one of the two places. -/
theorem sysError_or_rtError {failure : Failure} (keeps : queue.Keeps (some failure))
    (known : failure.kind ≠ .foreign) :
    (∃ errno, failure.kind = .system errno) ∧ queue.sysError = some failure ∧
        queue.rtError = none ∨
      (∃ code, failure.kind = .coded code) ∧ queue.sysError = none ∧
        queue.rtError = some failure := by
  rw [keeps.sysError, keeps.rtError]
  cases failure with
  | system errno context => exact .inl ⟨⟨errno, rfl⟩, rfl, rfl⟩
  | foreign message => exact absurd rfl known
  | _ => exact .inr ⟨⟨_, rfl⟩, rfl, rfl⟩

/-- A failure is kept if it is the first one. -/
theorem fail (keeps : queue.Keeps first) (failure : Failure) :
    (queue.fail failure).Keeps (first.or (some failure)) := by
  have working := keeps.failed
  cases first with
  | some kept =>
      -- both places stay as they are
      rw [Option.isSome_some] at working
      rw [Option.some_or]
      constructor
      · exact queue.failed_fail failure
      · rw [← keeps.sysError]
        simp [WorkQueue.fail, failSystem, failOther, setFailed, working]
      · rw [← keeps.rtError]
        simp [WorkQueue.fail, failSystem, failOther, setFailed, working]
  | none =>
      have noSystem : queue.sysError = none := keeps.sysError
      have noOther : queue.rtError = none := keeps.rtError
      rw [Option.isSome_none] at working
      rw [Option.none_or]
      cases sort : failure.isSystem <;>
        constructor <;>
        simp [WorkQueue.fail, failSystem, failOther, setFailed, working, sort, noSystem, noOther,
          Option.filter_some]

private theorem unchanged (keeps : queue.Keeps first) (failed : later.failed = queue.failed)
    (sysError : later.sysError = queue.sysError) (rtError : later.rtError = queue.rtError) :
    later.Keeps (first.or none) := by
  rw [Option.or_none]
  exact ⟨failed.trans keeps.failed, sysError.trans keeps.sysError, rtError.trans keeps.rtError⟩

/-- Whatever call returns, the failure that was kept stays kept, or the one that the call tells is
kept if there was none. -/
theorem serves {event : QueueEvent α} (keeps : queue.Keeps first)
    (serves : queue.Serves event later) : later.Keeps (first.or event.failure?) := by
  cases serves with
  | pushed accepted =>
      obtain ⟨-, -, rfl⟩ := push_eq_accepted accepted
      exact keeps.unchanged rfl rfl rfl
  | popped given =>
      obtain ⟨-, rest, -, rfl⟩ := pop_eq_item given
      exact keeps.unchanged rfl rfl rfl
  | refused | finished | closed => exact keeps.unchanged rfl rfl rfl
  | failed failure => exact keeps.fail failure

end Keeps

/-- What a queue owes to those that use it, in view of what has happened to it. -/
structure Orderly (limit : Nat) (events : List (QueueEvent α)) (queue : WorkQueue α) : Prop where
  /-- It never holds more than it may. -/
  room : queue.items.length ≤ limit
  /-- Items come out in the order in which they went in, each at most once. -/
  inOrder : pops events <+: pushes events
  /-- Without a failure, what went in and has not come out is still there. -/
  complete : queue.failed = false → pushes events = pops events ++ queue.items
  /-- The first failure is kept and never replaced. -/
  keeps : queue.Keeps (firstFailure? events)
  emptied : queue.failed = true → queue.items = []
  /-- No call waits for a queue that has failed. -/
  answers : queue.failed = true →
    (∀ value, queue.push value = .refused) ∧ queue.pop = .finished
  /-- After a failure nothing has gone in or come out. -/
  refuses : ∀ earlier later, events = earlier ++ later →
    (firstFailure? earlier).isSome = true → pushes later = [] ∧ pops later = []

private theorem Serves.limit_eq {queue later : WorkQueue α} {event : QueueEvent α}
    (serves : queue.Serves event later) : later.limit = queue.limit := by
  cases serves with
  | pushed accepted => rw [(push_eq_accepted accepted).2.2]
  | popped given =>
      obtain ⟨-, rest, -, rfl⟩ := pop_eq_item given
      rfl
  | refused | finished | closed => rfl
  | failed failure => exact queue.limit_fail failure

private theorem History.limit_eq {limit : Nat} {events : List (QueueEvent α)} {queue : WorkQueue α}
    (history : History limit events queue) : queue.limit = limit := by
  induction history with
  | start => rfl
  | next _ serves ih => rw [serves.limit_eq, ih]

/-- A queue that has failed neither takes nor gives. -/
theorem Serves.of_failed {queue later : WorkQueue α} {event : QueueEvent α}
    (serves : queue.Serves event later) (failed : queue.failed = true) :
    event.pushed? = none ∧ event.popped? = none := by
  cases serves with
  | pushed accepted => simp [(push_eq_accepted accepted).1] at failed
  | popped given => simp [(pop_eq_item given).1] at failed
  | refused | finished | closed | failed => exact ⟨rfl, rfl⟩

private theorem orderly_start (limit : Nat) : Orderly limit [] ({ limit } : WorkQueue α) where
  room := Nat.zero_le limit
  inOrder := List.prefix_rfl
  complete _ := rfl
  keeps := keeps_start limit
  emptied _ := rfl
  answers failed := nomatch failed
  refuses earlier later split _ := by
    obtain ⟨-, rfl⟩ := List.append_eq_nil_iff.mp split.symm
    exact ⟨rfl, rfl⟩

/-- One more call on an orderly queue. Only what the call itself does to the items is left to be
shown. -/
theorem Orderly.step {limit : Nat} {events : List (QueueEvent α)} {event : QueueEvent α}
    {queue later : WorkQueue α} (orderly : Orderly limit events queue)
    (serves : queue.Serves event later) (room : later.items.length ≤ limit)
    (inOrder : pops (events ++ [event]) <+: pushes (events ++ [event]))
    (complete : later.failed = false →
      pushes (events ++ [event]) = pops (events ++ [event]) ++ later.items)
    (emptied : later.failed = true → later.items = []) :
    Orderly limit (events ++ [event]) later where
  room := room
  inOrder := inOrder
  complete := complete
  keeps := by
    have one : firstFailure? [event] = event.failure? := by
      cases event <;> rfl
    rw [firstFailure?_append, one]
    exact orderly.keeps.serves serves
  emptied := emptied
  answers failed := ⟨push_of_failed failed, pop_of_failed failed⟩
  refuses earlier others split failed := by
    rcases List.eq_nil_or_concat others with rfl | ⟨before, last, rfl⟩
    · exact ⟨rfl, rfl⟩
    rw [List.concat_eq_append, ← List.append_assoc] at split
    obtain ⟨rfl, rest⟩ := List.append_inj' split rfl
    obtain rfl : event = last := by simpa using rest
    obtain ⟨noPush, noPop⟩ := orderly.refuses earlier before rfl failed
    have told : queue.failed = true := by
      rw [orderly.keeps.failed, firstFailure?_append, Option.isSome_or, failed, Bool.true_or]
    obtain ⟨notPushed, notPopped⟩ := serves.of_failed told
    rw [List.concat_eq_append, pushes_concat, pops_concat, noPush, noPop, notPushed, notPopped]
    exact ⟨rfl, rfl⟩

namespace Orderly

variable {limit : Nat} {events : List (QueueEvent α)} {event : QueueEvent α}
  {queue later : WorkQueue α}

/-- A call that moves no item leaves an orderly queue orderly if items and failure stay. -/
private theorem idle (orderly : Orderly limit events queue) (serves : queue.Serves event later)
    (noPush : event.pushed? = none) (noPop : event.popped? = none)
    (items : later.items = queue.items) (failed : later.failed = queue.failed) :
    Orderly limit (events ++ [event]) later := by
  apply orderly.step serves
  · rw [items]
    exact orderly.room
  · rw [pushes_concat_of_none noPush, pops_concat_of_none noPop]
    exact orderly.inOrder
  · intro working
    rw [pushes_concat_of_none noPush, pops_concat_of_none noPop, items]
    exact orderly.complete (failed ▸ working)
  · rw [items, failed]
    exact orderly.emptied

private theorem pushed (orderly : Orderly limit events queue) (limited : queue.limit = limit)
    {value : α} (accepted : queue.push value = .accepted later) :
    Orderly limit (events ++ [.pushed value]) later := by
  obtain ⟨working, room, rfl⟩ := push_eq_accepted accepted
  have samePops : pops (events ++ [QueueEvent.pushed value]) = pops events :=
    pops_concat_of_none rfl
  have onePush : pushes (events ++ [QueueEvent.pushed value]) = pushes events ++ [value] :=
    pushes_concat events _
  apply orderly.step (.pushed accepted)
  · rw [List.length_append, List.length_singleton, ← limited]
    exact room
  · rw [samePops, onePush]
    exact orderly.inOrder.trans (List.prefix_append _ _)
  · intro _
    rw [samePops, onePush, orderly.complete working, List.append_assoc]
  · simp [working]

private theorem popped (orderly : Orderly limit events queue) {value : α}
    (given : queue.pop = .item value later) :
    Orderly limit (events ++ [.popped value]) later := by
  obtain ⟨working, rest, items, rfl⟩ := pop_eq_item given
  have complete : pushes (events ++ [QueueEvent.popped value]) =
      pops (events ++ [QueueEvent.popped value]) ++ rest := by
    rw [pushes_concat, pops_concat, orderly.complete working, items]
    simp [QueueEvent.pushed?, QueueEvent.popped?]
  apply orderly.step (.popped given)
  · have room := orderly.room
    rw [items, List.length_cons] at room
    exact Nat.le_of_succ_le room
  · exact ⟨rest, complete.symm⟩
  · exact fun _ => complete
  · simp [working]

/-- A failure empties the queue, so that all that is left to keep is the order of what came out. -/
private theorem failing (orderly : Orderly limit events queue) (failure : Failure) :
    Orderly limit (events ++ [.failed failure]) (queue.fail failure) := by
  apply orderly.step (.failed failure)
  · rw [queue.items_fail]
    exact Nat.zero_le limit
  · rw [pushes_concat_of_none rfl, pops_concat_of_none rfl]
    exact orderly.inOrder
  · simp
  · exact fun _ => queue.items_fail failure

end Orderly

/-- **Queues are orderly**, whatever the order in which they are pushed, popped, closed and
failed. -/
theorem History.orderly {limit : Nat} {events : List (QueueEvent α)} {queue : WorkQueue α}
    (history : History limit events queue) : Orderly limit events queue := by
  induction history with
  | start => exact orderly_start limit
  | next before serves ih =>
      cases serves with
      | pushed accepted => exact ih.pushed before.limit_eq accepted
      | popped given => exact ih.popped given
      | failed failure => exact ih.failing failure
      | refused refused => exact ih.idle (.refused refused) rfl rfl rfl rfl
      | finished finished => exact ih.idle (.finished finished) rfl rfl rfl rfl
      | closed => exact ih.idle .closed rfl rfl rfl rfl

end WorkQueue

end StoreAudit
