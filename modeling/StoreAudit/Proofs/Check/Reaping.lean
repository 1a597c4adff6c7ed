import StoreAudit.Proofs.Check.Frame
import StoreAudit.Proofs.Check.Workers
import StoreAudit.Proofs.Scan.Reaping
import StoreAudit.Proofs.Scan.Trees

/-!
# A check waits for its children

A check that comes to a verdict, or does anything to the store but take its lock, has come to the
end of its feeds. So every process that they started was waited for and has ended well
(`Store.check_reaps`), and one that did not makes the check fail before it repairs anything.
-/

namespace StoreAudit

open Audit Judgement

/-- The calls that list what the pass over the objects looks at. -/
def ScanRange.objectCalls (range : ScanRange) : List (List Bytes) :=
  historyArguments true range.start range.stop ::
    if range.useIndex then [StagedScan.arguments range.stop] else []

namespace Repository

variable (repository : Repository) (range : ScanRange)

/-- The calls that list what the pass over the pointers looks at: the commits and their trees. -/
def pointerCalls : List (List Bytes) :=
  historyArguments false range.start range.stop :: TreeScan.calls
    (repository.recordsOf (historyArguments false range.start range.stop) Ascii.newline)

private theorem holding_objects (filter : PathFilter) :
    Feed.Holding repository (repository.source range filter).objects [] range.objectCalls := by
  unfold source ScanRange.objectCalls
  cases range.useIndex with
  | true => exact .cons .history (.cons .staged .nil)
  | false => exact .cons .history .nil

private theorem holding_pointers (filter : PathFilter) :
    Feed.Holding repository (repository.source range filter).pointers []
      (repository.pointerCalls range) := by
  have part : Section.Holding repository (.trees repository range.start range.stop {}) []
      (repository.pointerCalls range) := .trees
  have feed := Feed.Holding.cons part .nil
  rw [List.append_nil, List.append_nil] at feed
  exact feed

end Repository

namespace Store

variable {store : Store} {source : ScanSource} {repository : Repository}
  {calls : List (List Bytes)} {base : List (Option Int)} {session last : Session}

private theorem objectsPassFollowing_awaits
    (holding : Feed.Holding repository source.objects [] calls)
    {schedule : List PoolThread} {jobs : Int}
    (finishes : 2 ≤ jobs → store.Finishes source schedule jobs session)
    (awaits : session.Awaits base [])
    (passed : store.objectsPassFollowing source schedule jobs session = (.ok (), last)) :
    (∀ call ∈ calls, repository.EndsWell call) ∧ last.Awaits base [] := by
  obtain ⟨ended, alike⟩ := objectsPassFollowing_ends finishes passed
  obtain ⟨endWell, settled⟩ := Feed.awaits_contents holding awaits ended
  exact ⟨endWell, settled.of_sameChildren alike.children⟩

private theorem pointersPass_awaits (holding : Feed.Holding repository source.pointers [] calls)
    (awaits : session.Awaits base []) (passed : pointersPass source session = (.ok (), last)) :
    (∀ call ∈ calls, repository.EndsWell call) ∧ last.Awaits base [] := by
  obtain ⟨ended, alike⟩ := pointersPass_ends passed
  obtain ⟨endWell, settled⟩ := Feed.awaits_contents holding awaits ended
  exact ⟨endWell, settled.of_sameChildren alike.children⟩

/-- What the calls for the passes that are wanted come to, once the passes have passed. -/
theorem passesFollowing_awaits {options : CheckOptions}
    {objectCalls pointerCalls : List (List Bytes)}
    (objects : Feed.Holding repository source.objects [] objectCalls)
    (pointers : Feed.Holding repository source.pointers [] pointerCalls)
    {schedule : List PoolThread}
    (finishes : options.wantsObjects = true → 2 ≤ options.jobs →
      store.Finishes source schedule options.jobs session)
    (awaits : session.Awaits base [])
    (passed : store.passesFollowing options source schedule session = (.ok (), last)) :
    (options.wantsObjects = true → ∀ call ∈ objectCalls, repository.EndsWell call) ∧
      (options.wantsPointers = true → ∀ call ∈ pointerCalls, repository.EndsWell call) ∧
      last.Awaits base [] := by
  have wholePointers {start : Session} (awaits : start.Awaits base [])
      (passed : (if options.wantsPointers then pointersPass source else pure () : Audit Unit)
        start = (.ok (), last)) :
      (options.wantsPointers = true → ∀ call ∈ pointerCalls, repository.EndsWell call) ∧
        last.Awaits base [] := by
    split at passed
    · obtain ⟨endWell, settled⟩ := pointersPass_awaits pointers awaits passed
      exact ⟨fun _ => endWell, settled⟩
    · rename_i unwanted
      cases passed
      exact ⟨fun wanted => absurd wanted unwanted, awaits⟩
  unfold passesFollowing passes at passed
  cases wantsObjects : options.wantsObjects with
  | false =>
      simp only [wantsObjects, Bool.false_eq_true, if_false] at passed
      exact ⟨nofun, wholePointers awaits passed⟩
  | true =>
      simp only [wantsObjects, if_true] at passed
      obtain ⟨_, middle, first, second⟩ := bind_eq_ok passed
      obtain ⟨endWell, settled⟩ :=
        objectsPassFollowing_awaits objects (finishes wantsObjects) awaits first
      exact ⟨fun _ => endWell, wholePointers settled second⟩

private theorem kept_sameChildren : Kept Session.SameChildren fun _ => True :=
  ⟨fun _ _ _ => rfl, fun _ _ _ => rfl⟩

/-- The check has come to a verdict, or has done something to the files besides taking and giving
back its lock. -/
def Concludes (store : Store) (session : Session) (result : Except Failure Verdict × Session) :
    Prop :=
  (∃ verdict, result.1 = .ok verdict) ∨
    ∃ made, result.2.changes = session.changes ++ made ∧
      ∃ change ∈ made, change ≠ store.taking session ∧ change ≠ .remove store.lockPath

/-- Every child that was started by the check has been waited for and has ended with status 0, and
so have the calls for the passes that are wanted, as far as the repository settles them. -/
structure Reaps (repository : Repository) (range : ScanRange) (options : CheckOptions)
    (before after : Session) : Prop where
  children : ∃ ended, after.children = before.children ++ ended ∧ ∀ status ∈ ended, status = some 0
  objects : options.wantsObjects = true → ∀ call ∈ range.objectCalls, repository.EndsWell call
  pointers : options.wantsPointers = true →
    ∀ call ∈ repository.pointerCalls range, repository.EndsWell call

private theorem Reaps.of_sameChildren {range : ScanRange} {options : CheckOptions}
    {start before middle after : Session} (reaps : Reaps repository range options before middle)
    (begun : start.SameChildren before) (same : middle.SameChildren after) :
    Reaps repository range options start after := by
  obtain ⟨children, objects, pointers⟩ := reaps
  rw [begun, ← same] at children
  exact ⟨children, objects, pointers⟩

/-- Without its lock, a check waits for its children, or fails and changes nothing. -/
theorem concludeAfter_reaps {range : ScanRange} {filter : PathFilter} {options : CheckOptions}
    {schedule : List PoolThread} {start : Session}
    (finishes : options.wantsObjects = true → 2 ≤ options.jobs →
      store.Finishes (repository.source range filter) schedule options.jobs
        (renewed options start)) :
    let result := store.concludeAfter options
      (store.passesFollowing options (repository.source range filter) schedule) start
    Reaps repository range options start result.2 ∨
      (∃ failure, result.1 = .error failure) ∧ result.2.changes = start.changes := by
  have observes := store.within_passesFollowing options (repository.source range filter) schedule
    (renewed options start)
  rw [concludeAfter_apply]
  rcases shape : store.passesFollowing options (repository.source range filter) schedule
    (renewed options start) with ⟨failure | _, reached⟩ <;> rw [shape] at observes
  · exact .inr ⟨⟨failure, rfl⟩, observes.changes⟩
  · have begun : (renewed options start).Awaits start.children [] :=
      Session.awaits_self (renewed options start)
    obtain ⟨objects, pointers, settled⟩ := passesFollowing_awaits
      (repository.holding_objects range filter) (repository.holding_pointers range filter)
      finishes begun shape
    have same := kept_sameChildren.conclude options store.allowedFor_any (fun _ _ => rfl) reached
    exact .inl ⟨(settled.of_sameChildren same).children, objects, pointers⟩

private theorem not_concludes {session : Session} {result : Except Failure Verdict × Session}
    {made : List Change} (failed : ∃ failure, result.1 = .error failure)
    (changes : result.2.changes = session.changes ++ made)
    (only : ∀ change ∈ made, change = store.taking session ∨ change = .remove store.lockPath) :
    ¬ store.Concludes session result := by
  rintro (⟨verdict, ended⟩ | ⟨others, madeToo, change, member, notTaking, notReturning⟩)
  · obtain ⟨failure, failed⟩ := failed
    cases ended.symm.trans failed
  · obtain rfl := List.append_cancel_left (changes.symm.trans madeToo)
    exact (only change member).elim notTaking notReturning

private theorem checkFollowing_reaps {range : ScanRange} {filter : PathFilter}
    {options : CheckOptions} {schedule : List PoolThread} {session : Session}
    (completes : store.Completes options (repository.source range filter) schedule session)
    (concludes : store.Concludes session
      (store.checkFollowing options (repository.source range filter) schedule session)) :
    Reaps repository range options session
      (store.checkFollowing options (repository.source range filter) schedule session).2 := by
  have enters := store.checkBy_enters options (repository.source range filter)
    (store.objectsPassFollowing (repository.source range filter) schedule options.jobs) session
  change Enters store options session _ (store.checkFollowing options _ schedule session) at enters
  generalize store.checkFollowing options (repository.source range filter) schedule session = result
    at enters concludes ⊢
  cases enters with
  | dryRun dry =>
      rw [Completes, store.entered_of_dryRun dry] at completes
      rcases concludeAfter_reaps completes with reaps | ⟨failed, changes⟩
      · exact reaps
      · exact absurd concludes
          (not_concludes failed (changes.trans (List.append_nil _).symm) (by simp))
  | noStore dry absent =>
      rw [Completes, store.entered_of_noDirectory dry absent] at completes
      rcases concludeAfter_reaps completes with reaps | ⟨failed, changes⟩
      · exact reaps
      · exact absurd concludes
          (not_concludes failed (changes.trans (List.append_nil _).symm) (by simp))
  | refused dry there alone =>
      exact absurd concludes (not_concludes ⟨_, rfl⟩ rfl (by simp))
  | locked dry there taken =>
      rw [Completes, store.entered_of_made dry there taken] at completes
      rcases concludeAfter_reaps completes with reaps | ⟨failed, changes⟩
      · exact reaps.of_sameChildren rfl (kept_sameChildren.release trivial _)
      · have made := (changes_release store.lockPath _).trans
          ((congrArg (· ++ [.remove store.lockPath]) changes).trans (List.append_assoc _ _ _))
        exact absurd concludes (not_concludes failed made (by simp))

end Store

end StoreAudit
