import Mathlib.Order.Defs.Unbundled
import StoreAudit.Session

/-!
# Steps of a session

How the steps of a run compose, and what a composed step inherits from its parts. A step *stays
within* a relation on sessions if, wherever it starts, the session it ends in is related to the one
it started in. Preorders on sessions are inherited by sequences of steps, whether or not they fail.
-/

namespace StoreAudit.Audit

variable {α β : Type}

/-- A sequence goes on with the value of its first step, or fails with it. -/
theorem bind_apply (first : Audit α) (next : α → Audit β) (session : Session) :
    (first >>= next) session =
      match first session with
      | (.ok value, after) => next value after
      | (.error failure, after) => (.error failure, after) := by
  change (ExceptT.bindCont next (first session).1) (first session).2 = _
  rcases first session with ⟨_ | _, _⟩ <;> rfl

/-- A sequence goes on after a step that succeeds. -/
theorem bind_apply_of_ok {first : Audit α} {next : α → Audit β} {session after : Session}
    {value : α} (result : first session = (.ok value, after)) :
    (first >>= next) session = next value after := by
  rw [bind_apply, result]

/-- A sequence fails with its first step. -/
theorem bind_apply_of_error {first : Audit α} {next : α → Audit β} {session after : Session}
    {failure : Failure} (result : first session = (.error failure, after)) :
    (first >>= next) session = (.error failure, after) := by
  rw [bind_apply, result]

/-- A sequence that succeeds is made of steps that succeed. -/
theorem bind_eq_ok {first : Audit α} {next : α → Audit β} {session last : Session} {value : β}
    (result : (first >>= next) session = (.ok value, last)) :
    ∃ middle after,
      first session = (.ok middle, after) ∧ next middle after = (.ok value, last) := by
  rw [bind_apply] at result
  rcases shape : first session with ⟨failure | middle, after⟩
  · rw [shape] at result
    cases result
  · rw [shape] at result
    exact ⟨middle, after, rfl, result⟩

/-- What is made of a value leaves failure and session alone. -/
theorem bind_pure_apply (first : Audit α) (result : α → β) (session : Session) :
    (first >>= fun value => pure (result value)) session =
      ((first session).1.map result, (first session).2) := by
  rw [bind_apply]
  rcases first session with ⟨_ | _, _⟩ <;> rfl

/-- A step that cannot fail always goes on. -/
theorem bind_lift_apply (step : StateM Session α) (next : α → Audit β) (session : Session) :
    (liftM step >>= next : Audit β) session = next (step session).1 (step session).2 := rfl

/-- Steps that cannot fail are taken one after the other. -/
theorem bind_state_apply (step : StateM Session α) (next : α → StateM Session β)
    (session : Session) : (step >>= next) session = next (step session).1 (step session).2 := rfl

/-- A failure is handled in the session that it left. -/
theorem tryCatch_apply (step : Audit α) (handle : Failure → Audit α) (session : Session) :
    tryCatch step handle session =
      match step session with
      | (.ok value, after) => (.ok value, after)
      | (.error failure, after) => handle failure after := by
  change ExceptT.tryCatch step handle session = _
  rw [ExceptT.tryCatch, ExceptT.mk, bind_state_apply]
  rcases step session with ⟨_ | _, _⟩ <;> rfl

/-- A sequence depends on what its first step does. -/
theorem bind_lift_congr {first second : StateM Session α} (next : α → Audit β) {session : Session}
    (same : first session = second session) :
    (liftM first >>= next : Audit β) session = (liftM second >>= next : Audit β) session := by
  rw [bind_lift_apply, bind_lift_apply, same]

/-- A failure that is handed on leaves the session alone. -/
theorem liftExcept_apply (outcome : Except Failure α) (session : Session) :
    (liftM outcome : Audit α) session = (outcome, session) := by
  cases outcome <;> rfl

/-- A session after one more look at the stop signal. -/
def looked (session : Session) : Session := { session with signal := session.signal.poll }

/-- The look at the stop signal, and the failure if it finds a request. -/
theorem checkInterrupt_apply (session : Session) :
    checkInterrupt session =
      (if session.signal.requested then .error .interrupted else .ok (), looked session) := by
  have look : poll session = (session.signal.requested, looked session) := rfl
  rw [checkInterrupt, bind_lift_apply, look]
  cases session.signal.requested <;> rfl

/-- A request to stop takes the place of the failure. -/
theorem failUnlessInterrupted_apply (failure : Failure) (session : Session) :
    (failUnlessInterrupted failure : Audit α) session =
      (.error (if session.signal.requested then .interrupted else failure), looked session) := by
  have look : poll session = (session.signal.requested, looked session) := rfl
  rw [failUnlessInterrupted, bind_lift_apply, look]
  cases session.signal.requested <;> rfl

/-- Whatever the step gives if it succeeds is as said. -/
def Yields (step : Audit α) (result : α → Prop) : Prop :=
  ∀ session value after, step session = (.ok value, after) → result value

/-- A value that is as said is given. -/
theorem yields_pure {value : α} {result : α → Prop} (holds : result value) :
    Yields (pure value) result := by
  intro session given after succeeded
  cases succeeded
  exact holds

/-- A failure gives nothing of which anything could be said. -/
theorem yields_throw (failure : Failure) (result : α → Prop) : Yields (throw failure) result := by
  intro session given after succeeded
  cases succeeded

/-- What is given is as anything that follows. -/
theorem Yields.mono {step : Audit α} {result weaker : α → Prop} (yields : Yields step result)
    (implies : ∀ value, result value → weaker value) : Yields step weaker :=
  fun session value after succeeded => implies value (yields session value after succeeded)

/-- What is handed on is given as it is. -/
theorem yields_liftExcept {outcome : Except Failure α} {result : α → Prop}
    (holds : ∀ value, outcome = .ok value → result value) : Yields (liftM outcome) result := by
  intro session value after succeeded
  cases outcome with
  | error failure => cases succeeded
  | ok given =>
      cases succeeded
      exact holds value rfl

/-- A sequence gives what its second step makes of what the first one gives. -/
theorem Yields.bind {first : Audit α} {next : α → Audit β} {middle : α → Prop}
    {result : β → Prop} (start : Yields first middle)
    (continued : ∀ value, middle value → Yields (next value) result) :
    Yields (first >>= next) result := by
  intro session value last succeeded
  obtain ⟨given, after, started, finished⟩ := bind_eq_ok succeeded
  exact continued given (start _ _ _ started) _ _ _ finished

/-- What is made of a given value is given. -/
theorem Yields.map {step : Audit α} {result : β → Prop} {change : α → β}
    (yields : Yields step fun value => result (change value)) :
    Yields (change <$> step) result := by
  rw [map_eq_pure_bind]
  exact yields.bind fun _ holds => yields_pure holds

/-- Nothing need be said of what a step gives. -/
theorem yields_any (step : Audit α) : Yields step fun _ => True := fun _ _ _ _ => trivial

/-- A loop that keeps an invariant about what is still to be done and what it has. -/
theorem Yields.foldlM {γ : Type} {step : β → γ → Audit β} (invariant : List γ → β → Prop)
    (each : ∀ item rest value, invariant (item :: rest) value →
      Yields (step value item) (invariant rest))
    {items : List γ} {value : β} (start : invariant items value) :
    Yields (items.foldlM step value) (invariant []) := by
  induction items generalizing value with
  | nil => exact yields_pure start
  | cons item rest ih =>
      rw [List.foldlM_cons]
      exact (each item rest value start).bind fun _ holds => ih holds

/-- Whenever the step fails, it is for such a reason. -/
def FailsFor (step : Audit α) (reason : Failure → Prop) : Prop :=
  ∀ session failure after, step session = (.error failure, after) → reason failure

section FailsFor

variable {reason : Failure → Prop}

/-- To give a value does not fail. -/
theorem failsFor_pure (value : α) : FailsFor (pure value) reason := by
  intro session failure after failed
  cases failed

/-- To throw fails for what is thrown. -/
theorem failsFor_throw {failure : Failure} (holds : reason failure) :
    FailsFor (throw failure : Audit α) reason := by
  intro session given after failed
  cases failed
  exact holds

/-- A sequence fails as one of its steps does. -/
theorem FailsFor.bind {first : Audit α} {next : α → Audit β} (start : FailsFor first reason)
    (continued : ∀ value, FailsFor (next value) reason) : FailsFor (first >>= next) reason := by
  intro session failure last failed
  rw [bind_apply] at failed
  split at failed
  · exact continued _ _ _ _ failed
  · rename_i started
    cases failed
    exact start _ _ _ started

/-- What is made of a step fails as the step does. -/
theorem FailsFor.map {step : Audit α} {change : α → β} (fails : FailsFor step reason) :
    FailsFor (change <$> step) reason := by
  rw [map_eq_pure_bind]
  exact fails.bind fun _ => failsFor_pure _

/-- A loop that collects results fails as one of its steps does. -/
theorem FailsFor.mapM {step : α → Audit β} (each : ∀ item, FailsFor (step item) reason)
    (items : List α) : FailsFor (items.mapM step) reason := by
  induction items with
  | nil => exact failsFor_pure []
  | cons item rest ih =>
      rw [List.mapM_cons]
      exact (each item).bind fun _ => ih.bind fun _ => failsFor_pure _

end FailsFor

/-- A loop that collects results gets one for each item, or it fails at an item. -/
theorem mapM_eq_ok {step : α → Audit β} {items : List α} {session last : Session}
    {results : List β} (result : items.mapM step session = (.ok results, last)) :
    results.length = items.length ∧
      ∀ item ∈ items, ∃ before value after, step item before = (.ok value, after) := by
  induction items generalizing session results with
  | nil =>
      cases result
      exact ⟨rfl, nofun⟩
  | cons item rest ih =>
      rw [List.mapM_cons] at result
      obtain ⟨value, after, stepped, result⟩ := bind_eq_ok result
      obtain ⟨values, later, collected, result⟩ := bind_eq_ok result
      cases result
      obtain ⟨counted, succeeded⟩ := ih collected
      refine ⟨by rw [List.length_cons, counted, List.length_cons], fun other member => ?_⟩
      rcases List.mem_cons.mp member with rfl | member
      · exact ⟨session, value, after, stepped⟩
      · exact succeeded other member

/-- Wherever the step starts, it ends in a related session. -/
def Within (relation : Session → Session → Prop) (step : StateM Session α) : Prop :=
  ∀ session, relation session (step session).2

variable {relation : Session → Session → Prop}

/-- What stays within a relation stays within a wider one. -/
theorem Within.mono {wider : Session → Session → Prop} {step : StateM Session α}
    (within : Within relation step)
    (implies : ∀ before after, relation before after → wider before after) : Within wider step :=
  fun session => implies _ _ (within session)

/-- A step that cannot fail stays where it stays. -/
theorem Within.lift {step : StateM Session α} (within : Within relation step) :
    Within relation (liftM step : Audit α) := within

section Preorder

variable [IsPreorder Session relation]

/-- To give a value changes nothing. -/
theorem within_pure (value : α) : Within relation (pure value : Audit α) :=
  fun session => refl session

/-- To throw changes nothing. -/
theorem within_throw (failure : Failure) : Within relation (throw failure : Audit α) :=
  fun session => refl session

/-- To hand a failure on changes nothing. -/
theorem within_liftExcept (outcome : Except Failure α) :
    Within relation (liftM outcome : Audit α) := by
  intro session
  cases outcome <;> exact refl session

/-- Steps that stay within a preorder make a sequence that does. -/
theorem Within.bind {first : Audit α} {next : α → Audit β} (start : Within relation first)
    (continued : ∀ value, Within relation (next value)) :
    Within relation (first >>= next : Audit β) := by
  intro session
  have begun := start session
  rcases shape : first session with ⟨failure | value, after⟩ <;> rw [shape] at begun
  · rw [bind_apply_of_error shape]
    exact begun
  · rw [bind_apply_of_ok shape]
    exact IsTrans.trans _ _ _ begun (continued value after)

/-- A sequence after something handed on stays where its rest stays. -/
theorem Within.bind_liftExcept {outcome : Except Failure α} {next : α → Audit β}
    (continued : ∀ value, outcome = .ok value → Within relation (next value)) :
    Within relation (liftM outcome >>= next : Audit β) := by
  intro session
  cases outcome with
  | error failure => exact refl session
  | ok value => exact continued value rfl session

/-- A loop over steps that stay within a preorder stays within it. -/
theorem Within.forM {step : α → Audit Unit} (each : ∀ item, Within relation (step item))
    (items : List α) : Within relation (items.forM step : Audit Unit) := by
  induction items with
  | nil => exact within_pure ()
  | cons item rest ih => exact .bind (each item) fun _ => ih

/-- To give a value changes nothing, where nothing can fail. -/
theorem within_pure' (value : α) : Within relation (pure value : StateM Session α) :=
  fun session => refl session

/-- Steps that cannot fail make a sequence that stays where they stay. -/
theorem Within.bind' {first : StateM Session α} {next : α → StateM Session β}
    (start : Within relation first) (continued : ∀ value, Within relation (next value)) :
    Within relation (first >>= next) :=
  fun session => IsTrans.trans _ _ _ (start session) (continued _ _)

/-- A loop that collects results fails only at an item, in a session that the items before it left.
-/
theorem mapM_eq_error {step : α → Audit β} (within : ∀ item, Within relation (step item))
    {items : List α} {session last : Session} {failure : Failure}
    (result : items.mapM step session = (.error failure, last)) :
    ∃ item ∈ items, ∃ before after,
      relation session before ∧ step item before = (.error failure, after) := by
  induction items generalizing session with
  | nil => cases result
  | cons item rest ih =>
      rw [List.mapM_cons, bind_apply] at result
      have kept := within item session
      rcases stepped : step item session with ⟨reason | value, after⟩ <;>
        rw [stepped] at result kept
      · cases result
        exact ⟨item, List.mem_cons_self, session, last, refl session, stepped⟩
      · dsimp only at result
        rw [bind_apply] at result
        rcases collected : rest.mapM step after with ⟨reason | values, later⟩ <;>
          rw [collected] at result <;> cases result
        obtain ⟨other, member, before, final, further, failed⟩ := ih collected
        exact ⟨other, List.mem_cons_of_mem _ member, before, final,
          IsTrans.trans _ _ _ kept further, failed⟩

end Preorder

end StoreAudit.Audit
