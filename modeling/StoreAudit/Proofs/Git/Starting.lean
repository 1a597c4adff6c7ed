import StoreAudit.Scan.Records
import StoreAudit.Proofs.Session.Quiet

/-!
# Starting children

Unless the system refuses, a child that is started runs, and takes the next place among the children
of the session. A refusal is the failure of a system call.
-/

namespace StoreAudit

open Audit

/-- The failure to start the next child, if the system refuses it. -/
def Session.refusal? (session : Session) : Option Failure :=
  (session.spawns.headD .granted).failure?

/-- A failure to start a child. -/
def Failure.OfStart (failure : Failure) : Prop :=
  ∃ (call : StartCall) (errno : Errno), failure = .inCall call.name errno

/-- A call that the system refuses is a failure to start. -/
theorem Spawn.ofStart_of_failure? {spawn : Spawn} {failure : Failure}
    (refused : spawn.failure? = some failure) : failure.OfStart := by
  obtain ⟨⟨call, errno⟩, -, same⟩ := Option.map_eq_some_iff.mp refused
  exact ⟨call, errno, same.symm⟩

namespace Child

/-- The session once the command was traced and the system did what it does for the child. -/
def announced (child : Child) (session : Session) : Session :=
  let line := ascii "git -C " ++ child.repository.directory.beforeNul ++ Ascii.space ::
    (Bytes.join Ascii.space child.arguments).beforeNul
  (Audit.spawn (trace line session).2).2

/-- The session once the child runs. -/
def entered (child : Child) (session : Session) : Session :=
  { child.announced session with children := session.children ++ [none] }

/-- A child that the system does not refuse runs in the next place. -/
theorem start_apply (child : Child) (session : Session) :
    child.start session =
      match session.refusal? with
      | some failure => (.error failure, child.announced session)
      | none => (.ok (child.launch session.children.length), child.entered session) := by
  change (match session.refusal? with
    | some failure => (throw failure : Audit Child)
    | none => liftM child.enter) (child.announced session) = _
  cases session.refusal? <;> rfl

private theorem start_of_unrefused (child : Child) {session : Session}
    (willing : session.refusal? = none) : child.start session =
      (.ok (child.launch session.children.length), child.entered session) := by
  rw [start_apply, willing]

/-- A child that was started was not refused, and has the next place. -/
theorem start_eq_ok {child started : Child} {session after : Session}
    (begun : child.start session = (.ok started, after)) :
    session.refusal? = none ∧ started = child.launch session.children.length ∧
      after = child.entered session := by
  rw [start_apply] at begun
  cases refused : session.refusal? <;> rw [refused] at begun <;> cases begun
  exact ⟨rfl, rfl, rfl⟩

/-- Where the system refuses nothing, it goes on like that after a start. -/
theorem staysUnrefused_start (child : Child) : Within Session.StaysUnrefused child.start := by
  intro session unrefused
  rw [child.start_of_unrefused unrefused.next]
  exact unrefused.spawn

private theorem quiet_entered (child : Child) {session : Session} (quiet : session.Quiet) :
    (child.entered session).Quiet := ⟨quiet.unasked, quiet.unrefused.spawn⟩

/-- A child that was started is the command, launched in some place. -/
theorem yields_start (child : Child) :
    Yields child.start fun started => ∃ index, started = child.launch index :=
  fun session _ _ begun => ⟨session.children.length, (start_eq_ok begun).2.1⟩

/-- Where the system refuses nothing, a child starts. -/
theorem succeeds_start (child : Child) :
    Succeeds child.start fun started => ∃ index, started = child.launch index :=
  fun _ quiet => ⟨_, _, child.start_of_unrefused quiet.unrefused.next, child.quiet_entered quiet,
    _, rfl⟩

/-- A child is not started only because the system refuses. -/
theorem failsFor_start (child : Child) : FailsFor child.start Failure.OfStart := by
  intro session failure after failed
  rw [start_apply] at failed
  cases refused : session.refusal? <;> rw [refused] at failed <;> cases failed
  exact Spawn.ofStart_of_failure? refused

end Child

namespace Repository

/-- A command without input, running in some place. -/
def Launched (repository : Repository) (arguments : List Bytes) (child : Child) : Prop :=
  ∃ index, child = ((Child.idle repository arguments).launch index).closeInput

/-- A command is started, or the system refuses. -/
theorem start_apply (repository : Repository) (arguments : List Bytes) (session : Session) :
    repository.start arguments session =
      match session.refusal? with
      | some failure => (.error failure, (Child.idle repository arguments).announced session)
      | none =>
        (.ok ((Child.idle repository arguments).launch session.children.length).closeInput,
          (Child.idle repository arguments).entered session) := by
  rw [start, bind_apply, Child.start_apply]
  cases session.refusal? <;> rfl

/-- What was started is the command. -/
theorem yields_start (repository : Repository) (arguments : List Bytes) :
    Yields (repository.start arguments) (repository.Launched arguments) :=
  (Child.yields_start _).bind fun _ ⟨index, same⟩ => yields_pure ⟨index, by rw [same]⟩

/-- Where the system refuses nothing, a command starts. -/
theorem succeeds_start (repository : Repository) (arguments : List Bytes) :
    Succeeds (repository.start arguments) (repository.Launched arguments) :=
  (Child.succeeds_start _).bind fun _ ⟨index, same⟩ => succeeds_pure ⟨index, by rw [same]⟩

/-- A command is not started only because the system refuses. -/
theorem failsFor_start (repository : Repository) (arguments : List Bytes) :
    FailsFor (repository.start arguments) Failure.OfStart :=
  (Child.failsFor_start _).bind fun _ => failsFor_pure _

end Repository

end StoreAudit
