import StoreAudit.Proofs.Git.Reader
import StoreAudit.Proofs.Git.Starting

/-!
# How git commands end

Waiting for a command fails exactly if the command ended badly. How the calls of a repository end is
settled by its transcript, as `Repository.callFailure?` says, and so is how its look-up commands end
once no more names come, as `Repository.lookupFailure?` says.
-/

namespace StoreAudit

open Audit

namespace Repository

variable (repository : Repository)

/-- The failure that the end of a command is, unless it ended well. -/
def endFailure? (arguments : List Bytes) (errorText : Bytes) (ending : Ending) : Option Failure :=
  if ending.status = 0 then none
  else some (.commandFailed (Child.idle repository arguments).command errorText.trim)

/-- The failure that the end of a call is. -/
def callFailure? (arguments : List Bytes) : Option Failure :=
  let call := repository.transcript.call arguments
  repository.endFailure? arguments call.errorText call.ending

/-- The failure that the end of a look-up command is. -/
def lookupFailure? (mode : LookupMode) : Option Failure :=
  let last := repository.transcript.lookupEnd mode
  repository.endFailure? (Child.lookupArguments mode) last.errorText last.ending

end Repository

namespace Child

/-- A child that has only to be waited for, and how it ended. -/
structure IsOver (child : Child) (arguments : List Bytes) (errorText : Bytes) (ending : Ending) :
    Prop where
  arguments : child.arguments = arguments
  errorText : child.errorText = errorText
  ending : child.ending = some ending
  started : child.started = true
  unreaped : child.unreaped = true
  input : child.inputOpen = false
  /-- What arrives is still read. -/
  output : child.output.ended = true → child.output.arriving = []

/-- A child that is over is waited for without a failure. -/
theorem IsOver.reap {child : Child} {arguments : List Bytes} {errorText : Bytes} {ending : Ending}
    (isOver : child.IsOver arguments errorText ending) :
    child.reap =
      .ok (ending.status, { child with output := child.output.drain, unreaped := false }) := by
  have drained : child.output.drain.arriving = [] := PipeReader.arriving_drain isOver.output
  simp [Child.reap, isReadable, closeInput, closeOutput, isOver.started, isOver.input, drained,
    isOver.unreaped, isOver.ending]

/-- Waiting for a child that is over gives its status. -/
theorem IsOver.finish_apply {child : Child} {arguments : List Bytes} {errorText : Bytes}
    {ending : Ending} (isOver : child.IsOver arguments errorText ending) (session : Session) :
    child.finish session =
      (.ok (ending.status, { child with output := child.output.drain, unreaped := false }),
        { session with children := session.children.set child.index (some ending.status) }) := by
  unfold finish
  rw [isOver.reap]
  rfl

/-- A child that is gone tells how its command failed. -/
theorem IsOver.commandFailed_eq {child : Child} {arguments : List Bytes} {errorText : Bytes}
    {ending : Ending} (isOver : child.IsOver arguments errorText ending) (repository : Repository) :
    let gone : Child := { child with output := child.output.drain, unreaped := false }
    Failure.commandFailed gone.command gone.errorOutput =
      .commandFailed (idle repository arguments).command errorText.trim := by
  simp [errorOutput, hasComplained, isOver.started, isOver.errorText, Child.command, idle,
    isOver.arguments]

/-- What waiting for a child comes to, whether or not the user asks to stop. -/
theorem IsOver.wait_apply {child : Child} {arguments : List Bytes} {errorText : Bytes}
    {ending : Ending} (isOver : child.IsOver arguments errorText ending) (repository : Repository)
    (session : Session) :
    (child.wait session).1 =
      match repository.endFailure? arguments errorText ending with
      | none => .ok ()
      | some failure => .error (if session.signal.requested then .interrupted else failure) := by
  rw [Child.wait, bind_apply_of_ok (isOver.finish_apply session), Repository.endFailure?]
  by_cases well : ending.status = 0
  · simp only [accept, well, ne_eq, not_true_eq_false, if_false, if_true]
    rfl
  · rw [if_neg well, ← isOver.commandFailed_eq repository]
    simp only [accept, well, ne_eq, not_false_eq_true, if_true]
    rw [note, bind_lift_apply, failUnlessInterrupted_apply]
    rfl

/-- Waiting for a child fails exactly if it ended badly. -/
theorem IsOver.wait {child : Child} {arguments : List Bytes} {errorText : Bytes} {ending : Ending}
    (isOver : child.IsOver arguments errorText ending) (repository : Repository) :
    Ends child.wait (repository.endFailure? arguments errorText ending) := by
  let gone : Child := { child with output := child.output.drain, unreaped := false }
  have finished : Succeeds child.finish fun result => result = (ending.status, gone) :=
    fun session quiet => ⟨_, _, isOver.finish_apply session, ⟨quiet.unasked, quiet.unrefused⟩, rfl⟩
  unfold Child.wait Repository.endFailure?
  by_cases well : ending.status = 0
  · rw [if_pos well]
    refine finished.bind fun result same => ?_
    subst same
    simp only [accept, well, ne_eq, not_true_eq_false, if_false]
    exact succeeds_pure trivial
  · rw [if_neg well, ← isOver.commandFailed_eq repository]
    refine finished.bind_fails fun result same => ?_
    subst same
    simp only [accept, well, ne_eq, not_false_eq_true, if_true]
    exact (Succeeds.quietly fun _ => quiet_log _ _).bind_fails fun _ _ =>
      fails_failUnlessInterrupted _

/-- Everything that a call has for output arrives. -/
theorem output_launch (repository : Repository) (arguments : List Bytes) (index : Nat)
    (listing : lookupMode? (arguments.map Bytes.beforeNul) = none) :
    ((idle repository arguments).launch index).closeInput.output =
      { arriving := PipeReader.chunks (repository.transcript.call arguments).output } := by
  by_cases echoes : (repository.transcript.call arguments).echoes = true <;>
    simp [launch, idle, renewed, listing, echoes, closeInput, endInput]

/-- All that a call writes is read. -/
theorem readAll_launch (repository : Repository) (arguments : List Bytes) (index : Nat)
    (listing : lookupMode? (arguments.map Bytes.beforeNul) = none) :
    ((idle repository arguments).launch index).closeInput.output.readAll =
      ((repository.transcript.call arguments).output,
        { buffer := (repository.transcript.call arguments).output, ended := true }) := by
  rw [output_launch repository arguments index listing, PipeReader.readAll_of_open rfl rfl]
  simp

/-- A command whose input is closed at once is over, as far as its listing was read. -/
theorem isOver_launch (repository : Repository) (arguments : List Bytes) (index : Nat)
    (listing : lookupMode? (arguments.map Bytes.beforeNul) = none) :
    let child := ((idle repository arguments).launch index).closeInput
    let call := repository.transcript.call arguments
    { child with output := child.output.readAll.2 }.IsOver arguments call.errorText
      call.ending := by
  dsimp only
  rw [readAll_launch repository arguments index listing]
  by_cases echoes : (repository.transcript.call arguments).echoes = true <;>
    constructor <;> simp [launch, idle, renewed, listing, echoes, closeInput, endInput]

end Child

/-- The child is that of a call and has only to be waited for. -/
def Child.HasRun (child : Child) (repository : Repository) (arguments : List Bytes) : Prop :=
  let call := repository.transcript.call arguments
  child.IsOver arguments call.errorText call.ending

/-- The listing is that of a call: it has the records of the call, and its child has only to be
waited for. -/
structure RecordListing.IsOf (listing : RecordListing) (repository : Repository)
    (arguments : List Bytes) (delimiter : UInt8) : Prop where
  hasRun : listing.child.HasRun repository arguments
  records : listing.records = repository.recordsOf arguments delimiter

namespace RecordListing

variable {repository : Repository} {arguments : List Bytes}

/-- The command of a listing ends as its arguments settle. -/
theorem IsOf.ends {listing : RecordListing} {delimiter : UInt8}
    (isOf : listing.IsOf repository arguments delimiter) :
    Ends listing.child.wait (repository.callFailure? arguments) :=
  isOf.hasRun.wait repository

/-- The listing that a child delivers. -/
def ofChild (child : Child) (delimiter : UInt8) : RecordListing where
  child := { child with output := child.output.readAll.2 }
  records := Bytes.split delimiter child.output.readAll.1

private theorem isOf_ofChild (delimiter : UInt8)
    (listing : Child.lookupMode? (arguments.map Bytes.beforeNul) = none) {child : Child}
    (launched : repository.Launched arguments child) :
    (ofChild child delimiter).IsOf repository arguments delimiter := by
  obtain ⟨index, rfl⟩ := launched
  refine ⟨Child.isOver_launch repository arguments index listing, ?_⟩
  exact congrArg (fun read : Bytes × PipeReader => Bytes.split delimiter read.1)
    (Child.readAll_launch repository arguments index listing)

private theorem start_eq (repository : Repository) (arguments : List Bytes) (delimiter : UInt8) :
    start repository arguments delimiter =
      (repository.start arguments >>= fun child => pure (ofChild child delimiter)) := rfl

/-- Where it is not refused, a listing that is that of the call is started without a look at the
stop signal. -/
theorem start_apply (repository : Repository) (delimiter : UInt8)
    (listing : Child.lookupMode? (arguments.map Bytes.beforeNul) = none) (session : Session) :
    match session.refusal? with
    | some failure => (start repository arguments delimiter session).1 = .error failure
    | none => ∃ given after, start repository arguments delimiter session = (.ok given, after) ∧
        given.IsOf repository arguments delimiter ∧ after.signal = session.signal := by
  rw [start_eq, bind_apply, repository.start_apply]
  cases session.refusal? with
  | some failure => rfl
  | none => exact ⟨_, _, rfl, isOf_ofChild delimiter listing ⟨_, rfl⟩, rfl⟩

/-- A listing that is started is that of the call. -/
theorem yields_start (delimiter : UInt8)
    (listing : Child.lookupMode? (arguments.map Bytes.beforeNul) = none) :
    Yields (start repository arguments delimiter) fun given =>
      given.IsOf repository arguments delimiter := by
  rw [start_eq]
  exact (repository.yields_start arguments).bind fun child launched =>
    yields_pure (isOf_ofChild delimiter listing launched)

/-- Where the system refuses nothing, a listing starts. -/
theorem succeeds_start (delimiter : UInt8)
    (listing : Child.lookupMode? (arguments.map Bytes.beforeNul) = none) :
    Succeeds (start repository arguments delimiter) fun given =>
      given.IsOf repository arguments delimiter := by
  rw [start_eq]
  exact (repository.succeeds_start arguments).bind fun child launched =>
    succeeds_pure (isOf_ofChild delimiter listing launched)

end RecordListing

end StoreAudit
