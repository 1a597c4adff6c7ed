import StoreAudit.Proofs.Scan.History
import StoreAudit.Proofs.Scan.Staged
import StoreAudit.Proofs.Scan.Trees

/-!
# Feeds that are asked to stop

A scan looks at the stop signal before each record that it takes from its listing, and before it
reports its end. What a tree had beyond its first result is held back, and is delivered later
without another look. So a section that is asked to stop delivers what it holds back; only one that
holds nothing back fails (`Section.next_interrupted_iff`).
-/

namespace StoreAudit

open Audit

private theorem Audit.checkInterrupt_bind_of_requested {α : Type} (next : Unit → Audit α)
    {session : Session} (requested : session.signal.requested = true) :
    (checkInterrupt >>= next) session =
      (.error .interrupted, looked session) := by
  apply bind_apply_of_error
  rw [checkInterrupt_apply, if_pos requested]

section Scans

variable {session : Session} (requested : session.signal.requested = true)
include requested

private theorem HistoryScan.next_of_requested (scan : HistoryScan) :
    (scan.next session).1 = .error .interrupted := by
  unfold next
  cases scan.listing.records <;>
    exact congrArg Prod.fst (checkInterrupt_bind_of_requested _ requested)

private theorem StagedScan.next_of_requested (scan : StagedScan) :
    (scan.next session).1 = .error .interrupted := by
  unfold next
  cases scan.listing.records using List.twoStepInduction <;>
    exact congrArg Prod.fst (checkInterrupt_bind_of_requested _ requested)

private theorem TreeScan.next_of_requested (scan : TreeScan) (nothing : scan.pending = []) :
    (scan.next session).1 = .error .interrupted := by
  simp only [next, nothing]
  cases scan.listing.records <;>
    exact congrArg Prod.fst (checkInterrupt_bind_of_requested _ requested)

end Scans

namespace Section

/-- The section scans a repository, whether it was started or not. -/
def OfRepository : Section → Prop
  | listed _ _ => False
  | _ => True

/-- The items that the section has found and not delivered. -/
def heldBack : Section → List ScanItem
  | treeScan scan => scan.pending
  | listed items _ => items
  | _ => []

/-- The section is a scan that has been started. -/
def Started : Section → Prop
  | historyScan _ | stagedScan _ | treeScan _ => True
  | _ => False

private theorem Started.begin {part : Section} (started : part.Started) : part.begin = pure part :=
    by
  cases part <;> first | rfl | exact started.elim

private theorem OfRepository.begin {part : Section} (ofRepository : part.OfRepository) :
    Yields part.begin Started := by
  cases part with
  | listed items failure => exact ofRepository.elim
  | history _ _ _ _ | staged _ _ _ | trees _ _ _ _ =>
      exact .map ((yields_any _).mono fun _ _ => trivial)
  | historyScan _ | stagedScan _ | treeScan _ => exact yields_pure trivial

/-- To begin holds nothing more back. -/
theorem heldBack_begin (part : Section) :
    Yields part.begin fun started => started.heldBack = part.heldBack := by
  cases part with
  | history _ _ _ _ =>
      exact .map ((yields_any _).mono fun _ _ => rfl)
  | staged _ _ _ => exact .map ((yields_any _).mono fun _ _ => rfl)
  | trees _ _ _ _ =>
      exact .map ((yields_any _).bind fun _ _ => (yields_any _).bind fun _ _ => yields_pure rfl)
  | historyScan _ | stagedScan _ | treeScan _ | listed _ _ => exact yields_pure rfl

/-- A section does not begin only if the system refuses to start a child. -/
theorem failsFor_begin (part : Section) : part.begin.FailsFor Failure.OfStart := by
  have listing (repository : Repository) (arguments : List Bytes) (delimiter : UInt8) :
      (RecordListing.start repository arguments delimiter).FailsFor Failure.OfStart :=
    (repository.failsFor_start arguments).bind fun _ => failsFor_pure _
  have lookup (repository : Repository) (mode : LookupMode) :
      (Lookup.start repository mode).FailsFor Failure.OfStart :=
    (Child.failsFor_start _).bind fun _ => failsFor_pure _
  cases part with
  | history _ _ _ _ =>
      refine .map ((listing _ _ _).bind fun _ => ?_)
      exact (lookup _ _).bind fun _ => (lookup _ _).bind fun _ => failsFor_pure _
  | staged _ _ _ =>
      exact .map ((listing _ _ _).bind fun _ => (lookup _ _).bind fun _ => failsFor_pure _)
  | trees _ _ _ _ =>
      exact .map ((listing _ _ _).bind fun _ => (lookup _ _).bind fun _ => failsFor_pure _)
  | historyScan _ | stagedScan _ | treeScan _ | listed _ _ => exact failsFor_pure _

private theorem succeeds_begin (part : Section) : Succeeds part.begin fun _ => True := by
  cases part with
  | history repository start stop filter =>
      exact .map ((HistoryScan.succeeds_start repository start stop filter).mono fun _ _ => trivial)
  | staged repository commit filter =>
      exact .map ((StagedScan.succeeds_start repository commit filter).mono fun _ _ => trivial)
  | trees repository start stop filter =>
      exact .map ((TreeScan.succeeds_start repository start stop filter).mono fun _ _ => trivial)
  | historyScan _ | stagedScan _ | treeScan _ | listed _ _ => exact succeeds_pure trivial

/-- After a request to stop, a section begins all the same, unless the system refuses to start a
child, and finds the request then. -/
theorem begin_of_requested (part : Section) {session : Session}
    (requested : session.signal.requested = true) :
    (∃ started after, part.begin session = (.ok started, after) ∧
        after.signal.requested = true) ∨
      ¬ session.Unrefused ∧
        ∃ failure after, part.begin session = (.error failure, after) ∧ failure.OfStart := by
  obtain ⟨moment, comes, -⟩ := (Option.any_eq_true _ _).mp requested
  have grows := part.scanning_begin.grows session
  have noticed := part.scanning_begin.heeds moment session session.calmed
    (Session.raised_calmed comes)
  rcases begun : part.begin session with ⟨failure | started, after⟩ <;>
    rw [begun] at grows noticed
  · have reason := part.failsFor_begin _ _ _ begun
    refine .inr ⟨fun unrefused => ?_, failure, after, rfl, reason⟩
    obtain ⟨_, _, calm, -⟩ := part.succeeds_begin session.calmed ⟨rfl, unrefused⟩
    rw [calm] at noticed
    rcases noticed with interrupted | ⟨same, -⟩
    · obtain ⟨call, errno, rfl⟩ := reason
      cases interrupted
    · cases same
  · obtain ⟨-, -, unnoticed⟩ := noticed.resolve_left nofun
    rw [Session.requested_eq_of_raisedAt comes, decide_eq_true_iff] at requested
    refine .inl ⟨started, after, rfl, ?_⟩
    rw [Session.requested_eq_of_raisedAt unnoticed.comes, decide_eq_true_iff]
    exact requested.trans grows

private theorem Started.pull {part : Section} (started : part.Started) :
    Yields part.pull fun found => ∀ delivered ∈ found, delivered.2.OfRepository := by
  intro session found after succeeded
  cases part with
  | historyScan _ | stagedScan _ | treeScan _ =>
      obtain ⟨given, last, -, result⟩ := bind_eq_ok succeeded
      cases result
      cases given <;> simp [OfRepository]
  | _ => exact started.elim

/-- A section of a repository stays one. -/
theorem OfRepository.next {part : Section} (ofRepository : part.OfRepository) :
    Yields part.next fun found => ∀ delivered ∈ found, delivered.2.OfRepository :=
  ofRepository.begin.bind fun _ started => started.pull

private theorem Started.pull_of_requested {part : Section} (started : part.Started)
    {session : Session}
    (requested : session.signal.requested = true) (nothing : part.heldBack = []) :
    (part.pull session).1 = .error .interrupted := by
  have hold {σ : Type} (change : σ → Section) {pull : Audit (Option (ScanItem × σ))}
      (interrupted : (pull session).1 = .error .interrupted) :
      (held change pull session).1 = .error .interrupted := by
    rw [held, bind_pure_apply, interrupted]
    rfl
  cases part with
  | historyScan scan => exact hold historyScan (scan.next_of_requested requested)
  | stagedScan scan => exact hold stagedScan (scan.next_of_requested requested)
  | treeScan scan => exact hold treeScan (scan.next_of_requested requested nothing)
  | _ => exact started.elim

/-- After a request to stop, a section that holds nothing back is interrupted, unless it has still
to be started and the system refuses that. -/
theorem fails_of_nothing_heldBack {part : Section} (ofRepository : part.OfRepository)
    {session : Session} (requested : session.signal.requested = true)
    (nothing : part.heldBack = []) :
    (part.next session).1 = .error .interrupted ∨
      ¬ part.Started ∧ ¬ session.Unrefused ∧
        ∃ failure, (part.next session).1 = .error failure ∧ failure.OfStart := by
  rcases part.begin_of_requested requested with
    ⟨started, after, begun, still⟩ | ⟨refused, failure, after, begun, reason⟩
  · left
    rw [Section.next, bind_apply_of_ok begun]
    apply (ofRepository.begin _ _ _ begun).pull_of_requested still
    rw [part.heldBack_begin _ _ _ begun, nothing]
  · refine .inr ⟨fun started => ?_, refused, failure, ?_, reason⟩
    · rw [started.begin] at begun
      cases begun
    · rw [Section.next, bind_apply_of_error begun]

/-- Held back items are delivered first, whatever the signal says. -/
theorem next_of_heldBack {part : Section} {item : ScanItem} {more : List ScanItem}
    (waiting : part.heldBack = item :: more) (session : Session) :
    ∃ later, part.next session = (.ok (some (item, later)), session) ∧ later.heldBack = more := by
  cases part with
  | history _ _ _ _ | staged _ _ _ | trees _ _ _ _ => cases waiting
  | historyScan _ | stagedScan _ => cases waiting
  | listed items failure =>
      cases waiting
      exact ⟨listed more failure, rfl, rfl⟩
  | treeScan scan =>
      refine ⟨treeScan { scan with pending := more }, ?_, rfl⟩
      change scan.pending = item :: more at waiting
      change held treeScan scan.next session = _
      rw [TreeScan.next, waiting]
      rfl

/-- **Feeds that are asked to stop.** Whatever it has done so far, a section that scans a repository
and has been started fails as interrupted when it is asked for an item after a request to stop, if
and only if it holds no items back. So does one that is started then, unless the system refuses to
start a child: that is the only other failure. An item that it holds back is delivered all the same,
without a look at the signal. Only the trees of a range can hold items back. -/
theorem next_interrupted_iff {part : Section} (ofRepository : part.OfRepository)
    {session : Session} (requested : session.signal.requested = true) :
    (part.Started ∨ session.Unrefused →
        ((part.next session).1 = .error .interrupted ↔ part.heldBack = [])) ∧
      ((∃ failure, (part.next session).1 = .error failure ∧
        (failure = .interrupted ∨ failure.OfStart)) ↔ part.heldBack = []) ∧
      (∀ item more, part.heldBack = item :: more → ∃ later,
        part.next session = (.ok (some (item, later)), session) ∧ later.heldBack = more) ∧
      (part.heldBack ≠ [] → ∃ scan, part = treeScan scan) := by
  have nothing {failure : Failure} (failed : (part.next session).1 = .error failure) :
      part.heldBack = [] := by
    rcases waiting : part.heldBack with _ | ⟨item, more⟩
    · rfl
    · obtain ⟨later, delivered, -⟩ := next_of_heldBack waiting session
      rw [delivered] at failed
      cases failed
  refine ⟨fun able => ⟨nothing, fun empty => ?_⟩, ⟨fun ⟨_, failed, _⟩ => nothing failed,
    fun empty => ?_⟩, fun item more waiting => next_of_heldBack waiting session, fun some => ?_⟩
  · rcases fails_of_nothing_heldBack ofRepository requested empty with
      interrupted | ⟨unstarted, refused, -⟩
    · exact interrupted
    · exact absurd able (not_or.mpr ⟨unstarted, refused⟩)
  · rcases fails_of_nothing_heldBack ofRepository requested empty with
      interrupted | ⟨-, -, failure, failed, reason⟩
    · exact ⟨_, interrupted, .inl rfl⟩
    · exact ⟨failure, failed, .inr reason⟩
  · cases part with
    | treeScan scan => exact ⟨scan, rfl⟩
    | listed items failure => exact ofRepository.elim
    | history _ _ _ _ | staged _ _ _ | trees _ _ _ _ => exact absurd rfl some
    | historyScan _ | stagedScan _ => exact absurd rfl some

/-- A request before the first call. -/
theorem next_interrupted_iff_of_unstarted_history :
    (Section.next (.history TreeScan.trackedFirst [] (ascii "tip") {})
      { signal := { raisedAt := some 0 } }).1 = .error .interrupted := by
  refine ((next_interrupted_iff ?_ ?_).1 (.inr ?_)).mpr ?_
  · trivial
  · rfl
  · exact nofun
  · rfl

/-- A tree with two results: the second is delivered although the request came before. -/
theorem next_delivers_after_request :
    ∃ first second later last after final,
      Section.next (.trees TreeScan.trackedFirst [] (ascii "tip") {}) {} =
          (.ok (some (first, later)), after) ∧
        after.signal.raise.requested = true ∧
        later.next { after with signal := after.signal.raise } =
          (.ok (some (second, last)), final) := by
  have two : (Section.next (.trees TreeScan.trackedFirst [] (ascii "tip") {}) {}).1.toOption.any
      (fun found => found.any fun (_, later) => later.heldBack.length = 1) = true := by
    decide +kernel
  rcases shape : Section.next (.trees TreeScan.trackedFirst [] (ascii "tip") {}) {} with
    ⟨failure | _ | ⟨first, later⟩, after⟩ <;> rw [shape] at two
  · cases two
  · cases two
  · obtain ⟨second, waiting⟩ := List.length_eq_one_iff.mp (of_decide_eq_true two)
    obtain ⟨last, delivered, -⟩ :=
      next_of_heldBack waiting { after with signal := after.signal.raise }
    exact ⟨first, second, later, last, after, _, rfl, rfl, delivered⟩

end Section

end StoreAudit
