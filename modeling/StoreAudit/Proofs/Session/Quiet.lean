import StoreAudit.Proofs.Session.Step

/-!
# Sessions in which nobody interferes

`Audit.Yields` says what a step gives if it succeeds. Where nobody asks to stop and the system
refuses to start no child, more can be said: a step `Succeeds` with a value as said, or `Fails` for
a given reason, and either is inherited by sequences of steps. A step that gives nothing but can
fail `Ends` one way or the other.
-/

namespace StoreAudit

/-- The system refuses to start no child. -/
def Session.Unrefused (session : Session) : Prop := ∀ spawn ∈ session.spawns, spawn.refusal = none

/-- Nobody asks to stop, and the system refuses to start no child. -/
structure Session.Quiet (session : Session) : Prop where
  unasked : session.signal.raisedAt = none
  unrefused : session.Unrefused

/-- Who never asks to stop has not asked. -/
theorem Session.requested_of_unasked {session : Session}
    (unasked : session.signal.raisedAt = none) : session.signal.requested = false := by
  rw [Signal.requested, unasked]
  rfl

private theorem Session.Quiet.not_requested {session : Session} (quiet : session.Quiet) :
    session.signal.requested = false :=
  requested_of_unasked quiet.unasked

/-- What the system does for the next child, it does willingly. -/
theorem Session.Unrefused.next {session : Session} (unrefused : session.Unrefused) :
    (session.spawns.headD .granted).failure? = none := by
  cases spawns : session.spawns with
  | nil => rfl
  | cons spawn rest =>
      have willing := unrefused spawn (by simp [spawns])
      rw [List.headD_cons, Spawn.failure?, willing]
      rfl

/-- After a start the system still refuses nothing. -/
theorem Session.Unrefused.spawn {session : Session} (unrefused : session.Unrefused) :
    (Audit.spawn session).2.Unrefused :=
  fun spawn member => unrefused spawn (List.mem_of_mem_tail member)

/-- A session whose children the system did not refuse to start goes on like that. -/
def Session.StaysUnrefused (before after : Session) : Prop := before.Unrefused → after.Unrefused

instance : IsPreorder Session Session.StaysUnrefused where
  refl _ := id
  trans _ _ _ first second unrefused := second (first unrefused)

namespace Audit

variable {α β : Type}

/-- Where nobody interferes, the step succeeds, and its value is as said. -/
def Succeeds (step : Audit α) (result : α → Prop) : Prop :=
  ∀ session, session.Quiet →
    ∃ value after, step session = (.ok value, after) ∧ after.Quiet ∧ result value

/-- Where nobody interferes, the step fails for this reason. -/
def Fails (step : Audit α) (failure : Failure) : Prop :=
  ∀ session, session.Quiet → ∃ after, step session = (.error failure, after) ∧ after.Quiet

/-- To give a value succeeds. -/
theorem succeeds_pure {value : α} {result : α → Prop} (holds : result value) :
    Succeeds (pure value) result :=
  fun session quiet => ⟨value, session, rfl, quiet, holds⟩

/-- To throw fails. -/
theorem fails_throw (failure : Failure) : Fails (throw failure : Audit α) failure :=
  fun session quiet => ⟨session, rfl, quiet⟩

/-- What succeeds with more succeeds with less. -/
theorem Succeeds.mono {step : Audit α} {result weaker : α → Prop} (succeeds : Succeeds step result)
    (implies : ∀ value, result value → weaker value) : Succeeds step weaker := by
  intro session quiet
  obtain ⟨value, after, ended, still, holds⟩ := succeeds session quiet
  exact ⟨value, after, ended, still, implies value holds⟩

private theorem Succeeds.lift {step : StateM Session α} {result : α → Prop}
    (holds : ∀ session, session.Quiet → (step session).2.Quiet ∧ result (step session).1) :
    Succeeds (liftM step) result :=
  fun session quiet =>
    ⟨(step session).1, (step session).2, rfl, (holds session quiet).1, (holds session quiet).2⟩

/-- A step that cannot fail succeeds if it stays quiet. -/
theorem Succeeds.quietly {step : StateM Session α}
    (still : ∀ session, session.Quiet → (step session).2.Quiet) :
    Succeeds (liftM step) fun _ => True :=
  .lift fun session quiet => ⟨still session quiet, trivial⟩

/-- Steps that succeed make a sequence that does. -/
theorem Succeeds.bind {first : Audit α} {next : α → Audit β} {middle : α → Prop}
    {result : β → Prop} (start : Succeeds first middle)
    (continued : ∀ value, middle value → Succeeds (next value) result) :
    Succeeds (first >>= next) result := by
  intro session quiet
  obtain ⟨value, after, ended, still, holds⟩ := start session quiet
  rw [bind_apply_of_ok ended]
  exact continued value holds after still

/-- What is made of a success is one. -/
theorem Succeeds.map {step : Audit α} {change : α → β} {result : β → Prop}
    (succeeds : Succeeds step fun value => result (change value)) :
    Succeeds (change <$> step) result := by
  rw [map_eq_pure_bind]
  exact succeeds.bind fun _ holds => succeeds_pure holds

/-- A failure after a success is that of the sequence. -/
theorem Succeeds.bind_fails {first : Audit α} {next : α → Audit β} {middle : α → Prop}
    {failure : Failure} (start : Succeeds first middle)
    (continued : ∀ value, middle value → Fails (next value) failure) :
    Fails (first >>= next) failure := by
  intro session quiet
  obtain ⟨value, after, ended, still, holds⟩ := start session quiet
  rw [bind_apply_of_ok ended]
  exact continued value holds after still

/-- Nothing comes after a failure. -/
theorem Fails.bind {first : Audit α} {failure : Failure} (fails : Fails first failure)
    (next : α → Audit β) : Fails (first >>= next) failure := by
  intro session quiet
  obtain ⟨after, ended, still⟩ := fails session quiet
  exact ⟨after, bind_apply_of_error ended, still⟩

/-- A loop that keeps an invariant about what it has done and what it has. -/
theorem Succeeds.foldlM {γ : Type} {step : β → γ → Audit β} (invariant : List γ → β → Prop)
    {items : List γ} {value : β} (start : invariant [] value)
    (each : ∀ done item value, item ∈ items → invariant done value →
      Succeeds (step value item) (invariant (done ++ [item]))) :
    Succeeds (items.foldlM step value) (invariant items) := by
  have from_here (done rest : List γ) (value : β) (part : ∀ item ∈ rest, item ∈ items)
      (holds : invariant done value) :
      Succeeds (rest.foldlM step value) (invariant (done ++ rest)) := by
    induction rest generalizing done value with
    | nil => exact succeeds_pure (by rwa [List.append_nil])
    | cons item rest ih =>
        obtain ⟨member, members⟩ := List.forall_mem_cons.mp part
        rw [List.foldlM_cons]
        refine (each done item value member holds).bind fun later kept => ?_
        rw [List.append_cons]
        exact ih _ later members kept
  exact from_here [] items value (fun _ member => member) start

/-- Where nobody asks to stop, the look at the signal finds nothing. -/
theorem succeeds_checkInterrupt : Succeeds checkInterrupt fun _ => True := by
  intro session quiet
  refine ⟨(), looked session, ?_, ⟨quiet.unasked, quiet.unrefused⟩, trivial⟩
  rw [checkInterrupt_apply, quiet.not_requested]
  rfl

/-- Where nobody asks to stop, a failure is what it is. -/
theorem fails_failUnlessInterrupted (failure : Failure) :
    Fails (failUnlessInterrupted failure : Audit α) failure := by
  intro session quiet
  refine ⟨looked session, ?_, quiet.unasked, quiet.unrefused⟩
  rw [failUnlessInterrupted_apply, quiet.not_requested]
  rfl

/-- A record keeps a session quiet. -/
theorem quiet_log (level : Int) (line : Bytes) {session : Session} (quiet : session.Quiet) :
    (log level line session).2.Quiet := ⟨quiet.unasked, quiet.unrefused⟩

/-- Where nobody interferes, the step fails for this reason, or succeeds without one. -/
def Ends (step : Audit Unit) : Option Failure → Prop
  | some failure => Fails step failure
  | none => Succeeds step fun _ => True

/-- Of two steps that can only fail, the first that does decides. -/
theorem Ends.bind {first second : Audit Unit} {early late : Option Failure}
    (start : Ends first early) (finish : Ends second late) :
    Ends (first >>= fun _ => second) (early.or late) := by
  cases early with
  | some failure => exact Fails.bind start _
  | none =>
      cases late with
      | some failure => exact Succeeds.bind_fails start fun _ _ => finish
      | none => exact Succeeds.bind start fun _ _ => finish

end Audit

end StoreAudit
