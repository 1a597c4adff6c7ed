import StoreAudit.Proofs.Git.Endings
import StoreAudit.Proofs.Scan.Feed

/-!
# Draining feeds

What a feed holds where nobody interferes is found by pulling one item after the other
(`Audit.Delivers`), and what a chain of feeds delivers is, for every session, what the first one
delivers and then, unless that failed, what the second one does (`Feed.contents_append`).
-/

namespace StoreAudit

namespace Audit

variable {σ τ α : Type}

/-- Where nobody interferes, a pull and those after it deliver these items, and what follows them
is the failure or, without one, the end. -/
def Delivers (next : σ → Audit (Option (ScanItem × σ))) (failure : Option Failure) :
    List ScanItem → Audit (Option (ScanItem × σ)) → Prop
  | [], pull =>
    match failure with
    | some failure => Fails pull failure
    | none => Succeeds pull (· = none)
  | item :: items, pull =>
    Succeeds pull fun found =>
      ∃ later, found = some (item, later) ∧ Delivers next failure items (next later)

variable {next : σ → Audit (Option (ScanItem × σ))} {failure : Option Failure}
  {items : List ScanItem}

/-- A step that succeeds before a pull changes nothing of what is delivered. -/
theorem Delivers.bind {first : Audit α} {middle : α → Prop}
    {pull : α → Audit (Option (ScanItem × σ))} (start : Succeeds first middle)
    (continued : ∀ value, middle value → Delivers next failure items (pull value)) :
    Delivers next failure items (first >>= pull) := by
  cases items with
  | cons item items => exact Succeeds.bind start continued
  | nil =>
      cases failure with
      | some failure => exact Succeeds.bind_fails start continued
      | none => exact Succeeds.bind start continued

/-- An item is delivered before what the rest delivers. -/
theorem Delivers.item {item : ScanItem} {later : σ}
    (more : Delivers next failure items (next later)) :
    Delivers next failure (item :: items) (pure (some (item, later))) :=
  succeeds_pure ⟨later, rfl, more⟩

/-- A pull that fails delivers the failure. -/
theorem Delivers.failed {failure : Failure} {pull : Audit (Option (ScanItem × σ))}
    (fails : Fails pull failure) : Delivers next (some failure) [] pull := fails

/-- A pull that closes ends as the closing ends. -/
theorem Delivers.ended {close : Audit Unit} (ends : Ends close failure) :
    Delivers next failure [] (close >>= fun _ => pure none) := by
  cases failure with
  | some failure => exact Fails.bind ends _
  | none => exact Succeeds.bind ends fun _ _ => succeeds_pure rfl

/-- The pull of a state that is held in another one. -/
def held (hold : σ → τ) (pull : Audit (Option (ScanItem × σ))) : Audit (Option (ScanItem × τ)) :=
  pull >>= fun found => pure (found.map fun (item, later) => (item, hold later))

private theorem held_held {υ : Type} (hold : σ → τ) (further : τ → υ)
    (pull : Audit (Option (ScanItem × σ))) :
    held further (held hold pull) = held (fun state => further (hold state)) pull := by
  simp only [held, bind_assoc, pure_bind, Option.map_map]
  rfl

private theorem Delivers.held {other : τ → Audit (Option (ScanItem × τ))} (hold : σ → τ)
    (same : ∀ state, other (hold state) = Audit.held hold (next state))
    {pull : Audit (Option (ScanItem × σ))} (delivers : Delivers next failure items pull) :
    Delivers other failure items (Audit.held hold pull) := by
  induction items generalizing pull with
  | nil =>
      cases failure with
      | some failure => exact Fails.bind delivers _
      | none =>
          refine Succeeds.bind delivers fun found none => succeeds_pure ?_
          rw [none]
          rfl
  | cons item items ih =>
      refine Succeeds.bind delivers fun found some => succeeds_pure ?_
      obtain ⟨later, rfl, more⟩ := some
      refine ⟨hold later, rfl, ?_⟩
      rw [same]
      exact ih more

end Audit

open Audit

namespace Feed

/-- Where nobody asks to stop and every child can be started, the feed delivers these items, and
what follows them is the failure or, without one, the end. -/
def Holds (feed : Feed) (items : List ScanItem) (failure : Option Failure) : Prop :=
  ∀ session, session.Quiet →
    (feed.contents session).items = items ∧ (feed.contents session).failure = failure

private theorem holds_of_delivers {feed : Feed} {items : List ScanItem} {failure : Option Failure}
    (delivers : Delivers Feed.next failure items feed.next) : feed.Holds items failure := by
  induction items generalizing feed with
  | nil =>
      intro session quiet
      cases failure with
      | some failure =>
          obtain ⟨after, failed, -⟩ := delivers session quiet
          rw [contents_of_error failed]
          exact ⟨rfl, rfl⟩
      | none =>
          obtain ⟨found, after, ended, -, rfl⟩ := delivers session quiet
          rw [contents_of_end ended]
          exact ⟨rfl, rfl⟩
  | cons item items ih =>
      intro session quiet
      obtain ⟨found, after, pulled, still, rest, rfl, more⟩ := delivers session quiet
      obtain ⟨sameItems, sameFailure⟩ := ih more after still
      rw [contents_of_item pulled]
      exact ⟨congrArg (item :: ·) sameItems, sameFailure⟩

/-- What a feed holds is settled. -/
theorem Holds.unique {feed : Feed} {items others : List ScanItem} {failure other : Option Failure}
    (holds : feed.Holds items failure) (again : feed.Holds others other) :
    items = others ∧ failure = other := by
  have one := holds {} ⟨rfl, nofun⟩
  have two := again {} ⟨rfl, nofun⟩
  exact ⟨one.1.symm.trans two.1, one.2.symm.trans two.2⟩

private theorem next_append (first second : Feed) :
    Feed.next (first ++ second) = first.next >>= fun found =>
      match found with
      | some (item, rest) => pure (some (item, rest ++ second))
      | none => second.next := by
  funext session
  induction first generalizing session with
  | nil => rfl
  | cons part rest ih =>
      rw [List.cons_append, Feed.next, Feed.next, bind_apply, bind_apply, bind_apply]
      rcases part.next session with ⟨failure | _ | ⟨item, later⟩, after⟩
      · rfl
      · dsimp only
        rw [ih, bind_apply]
      · rfl

namespace Contents

/-- What is delivered first and then, unless that failed, what is delivered after it. -/
def followedBy (first : Contents) (second : Session → Contents) : Contents :=
  match first.failure with
  | some _ => first
  | none =>
    let more := second first.after
    { more with items := first.items ++ more.items }

end Contents

/-- What a feed delivers is settled by its next pull. -/
theorem contents_congr {feed other : Feed} {session later : Session}
    (same : feed.next session = other.next later) :
    feed.contents session = other.contents later := by
  rcases shape : other.next later with ⟨failure | _ | ⟨item, rest⟩, after⟩
  · rw [contents_of_error shape, contents_of_error (same.trans shape)]
  · rw [contents_of_end shape, contents_of_end (same.trans shape)]
  · rw [contents_of_item shape, contents_of_item (same.trans shape)]

/-- A chain delivers what its first part does and then, unless that failed, what the second does. -/
theorem contents_append (first second : Feed) (session : Session) :
    Feed.contents (first ++ second) session =
      (first.contents session).followedBy second.contents := by
  induction bound : first.bound using Nat.strongRecOn generalizing first session with
  | ind bound ih =>
      subst bound
      have pulled := congrFun (next_append first second) session
      rw [bind_apply] at pulled
      rcases shape : first.next session with ⟨failure | _ | ⟨item, rest⟩, after⟩ <;>
        rw [shape] at pulled
      · rw [contents_of_error shape, contents_of_error pulled]
        rfl
      · rw [contents_of_end shape, contents_congr pulled]
        rfl
      · have further := ih rest.bound (bound_of_next shape) rest after rfl
        rw [contents_of_item shape, contents_of_item pulled, further]
        unfold Contents.followedBy
        cases (rest.contents after).failure <;> rfl

private theorem next_singleton (part : Section) :
    Feed.next [part] = held (fun later => [later]) part.next := by
  funext session
  rw [Feed.next, held, bind_apply, bind_apply]
  rcases part.next session with ⟨failure | _ | ⟨item, later⟩, after⟩ <;> rfl

/-- A section that starts a scan holds what the scan delivers from its start. -/
theorem holds_of_scan {σ : Type} {part : Section} {start : Audit σ}
    {next : σ → Audit (Option (ScanItem × σ))} (hold : σ → Section)
    (begins : part.begin = hold <$> start) (begun : ∀ scan, (hold scan).begin = pure (hold scan))
    (pulls : ∀ scan, (hold scan).pull = held hold (next scan))
    {items : List ScanItem} {failure : Option Failure}
    (delivers : Delivers next failure items (start >>= next)) :
    Feed.Holds [part] items failure := by
  have under (scan : σ) : Feed.next [hold scan] = held (fun scan => [hold scan]) (next scan) := by
    rw [next_singleton, Section.next, begun, pure_bind, pulls, held_held]
  have opened : Feed.next [part] = held (fun scan => [hold scan]) (start >>= next) := by
    rw [next_singleton, Section.next, begins, map_eq_pure_bind, bind_assoc, held, held, bind_assoc,
      bind_assoc]
    refine bind_congr fun scan => ?_
    rw [pure_bind, pulls]
    exact held_held hold (fun later : Section => [later]) (next scan)
  apply holds_of_delivers
  rw [opened]
  exact delivers.held _ under

end Feed

end StoreAudit
