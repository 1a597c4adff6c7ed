import StoreAudit.Proofs.Session.Quiet
import StoreAudit.Proofs.Session.Records

/-!
# Steps of a scan

A scan depends on nothing of a session but the stop signal, the children started so far and what
the system does when children are started, and besides these it leaves only records in the journal
and the names of the files made for error streams. A look at the signal that finds a request makes
it fail as interrupted, and as long as none does, it goes on as if there were no request. The steps
that are so compose.
-/

namespace StoreAudit

namespace Session

/-- What a scan can tell of a session is the same. -/
structure Alike (first second : Session) : Prop where
  signal : first.signal = second.signal
  children : first.children = second.children
  spawns : first.spawns = second.spawns

/-- A session is like itself. -/
theorem Alike.refl (session : Session) : session.Alike session := ⟨rfl, rfl, rfl⟩

/-- What is like what is alike, is alike. -/
theorem Alike.trans {first second third : Session} (before : first.Alike second)
    (after : second.Alike third) : first.Alike third :=
  ⟨before.signal.trans after.signal, before.children.trans after.children,
    before.spawns.trans after.spawns⟩

/-- What a scan can tell of two sessions is the same but for a request to stop, which comes at some
look in the one and never in the other. -/
structure Raised (moment : Nat) (raised calm : Session) : Prop where
  comes : raised.signal.raisedAt = some moment
  polls : raised.signal.polls = calm.signal.polls
  children : raised.children = calm.children
  spawns : raised.spawns = calm.spawns
  quiet : calm.signal.raisedAt = none

/-- The request to stop comes at this look, and of the looks taken since an earlier session none has
found it. -/
structure Unnoticed (moment : Nat) (before after : Session) : Prop where
  comes : after.signal.raisedAt = some moment
  looks : after.signal.polls ≤ max moment before.signal.polls

/-- The same session, in which nobody asks to stop. -/
def calmed (session : Session) : Session := { session with signal := session.signal.reset }

variable {moment : Nat} {before middle after raised calm : Session}

/-- A session differs from one in which nobody asks to stop by the request only. -/
theorem raised_calmed (comes : before.signal.raisedAt = some moment) :
    Raised moment before before.calmed :=
  ⟨comes, rfl, rfl, rfl, rfl⟩

/-- A request is not noticed where no look is taken. -/
theorem Unnoticed.of_signal_eq (comes : before.signal.raisedAt = some moment)
    (same : after.signal = before.signal) : Unnoticed moment before after :=
  ⟨same ▸ comes, same ▸ Nat.le_max_right _ _⟩

/-- Of sessions that differ by a request, one can be exchanged for one that is like it. -/
theorem Raised.of_alike {other : Session} (differ : Raised moment raised calm)
    (same : other.Alike raised) : Raised moment other calm where
  comes := same.signal ▸ differ.comes
  polls := same.signal ▸ differ.polls
  children := same.children.trans differ.children
  spawns := same.spawns.trans differ.spawns
  quiet := differ.quiet

/-- What is noticed neither before nor after a session is not noticed. -/
theorem Unnoticed.trans (first : Unnoticed moment before middle)
    (second : Unnoticed moment middle after) : Unnoticed moment before after :=
  ⟨second.comes, Nat.le_trans second.looks (Nat.max_le.mpr ⟨Nat.le_max_left _ _, first.looks⟩)⟩

/-- A request is found by the looks from its moment on. -/
theorem requested_eq_of_raisedAt (comes : raised.signal.raisedAt = some moment) :
    raised.signal.requested = decide (moment ≤ raised.signal.polls) := by
  rw [Signal.requested, comes]
  rfl

end Session

open Session (Raised Unnoticed)

namespace Audit

variable {α β : Type}

/-- A step of a scan that takes no look at the stop signal. -/
structure Heedless (step : StateM Session α) : Prop where
  within : Within Session.Scans step
  signal : ∀ session, (step session).2.signal = session.signal
  same : ∀ first second, first.children = second.children → first.spawns = second.spawns →
    (step first).1 = (step second).1 ∧ (step first).2.children = (step second).2.children ∧
      (step first).2.spawns = (step second).2.spawns

/-- A record takes no look at the stop signal. -/
theorem heedless_log (level : Int) (line : Bytes) : Heedless (log level line) :=
  ⟨fun _ => ⟨rfl, rfl, rfl, ⟨[(level, line ++ [Ascii.newline])], rfl⟩, rfl, rfl, .of_eq rfl, rfl⟩,
    fun _ => rfl, fun _ _ children spawns => ⟨rfl, children, spawns⟩⟩

/-- To have the system start a child takes no look at the stop signal. -/
theorem heedless_spawn : Heedless spawn := by
  have makes (session : Session) : session.Spools (Audit.spawn session).2 := by
    let next := session.spawns.headD .granted
    have spools : (Audit.spawn session).2.spools =
        session.spools ++ if next.makesFile then [next.path] else [] := rfl
    cases made : next.makesFile <;> rw [made] at spools
    · exact .of_eq (spools.trans (List.append_nil _))
    · exact ⟨[next], spools⟩
  refine ⟨fun session => ⟨rfl, rfl, rfl, ⟨[], rfl⟩, rfl, rfl, makes session, rfl⟩, fun _ => rfl, ?_⟩
  intro first second children spawns
  have one : first.spawns.headD .granted = second.spawns.headD .granted := by rw [spawns]
  exact ⟨one, children, congrArg List.tail spawns⟩

/-- A note takes no look at the stop signal. -/
theorem heedless_note (line : Bytes) : Heedless (note line) := heedless_log _ _

/-- A record for tracing takes no look at the stop signal. -/
theorem heedless_trace (line : Bytes) : Heedless (trace line) := heedless_log _ _

/-- Wherever it starts, the step is interrupted, or none of the looks that it takes finds a request
to stop. -/
def Heeds (step : Audit α) : Prop :=
  ∀ moment session, session.signal.raisedAt = some moment →
    (step session).1 = .error .interrupted ∨ Unnoticed moment session (step session).2

namespace Heeds

/-- A step that takes no look heeds the stop signal. -/
theorem of_signal_eq {step : Audit α}
    (same : ∀ session, (step session).2.signal = session.signal) : Heeds step :=
  fun _ session comes => .inr (.of_signal_eq comes (same session))

/-- Steps that heed the stop signal make a sequence that does. -/
theorem bind {first : Audit α} {next : α → Audit β} (start : Heeds first)
    (continued : ∀ value, Heeds (next value)) : Heeds (first >>= next) := by
  intro moment session comes
  have begun := start moment session comes
  rcases shape : first session with ⟨failure | value, after⟩ <;> rw [shape] at begun
  · rw [bind_apply_of_error shape]
    exact begun.imp (fun noticed => by cases noticed; rfl) id
  · rw [bind_apply_of_ok shape]
    have unnoticed := begun.resolve_left nofun
    exact (continued value moment after unnoticed.comes).imp id unnoticed.trans

end Heeds

/-- A step of a scan. -/
structure Scanning (step : Audit α) : Prop where
  within : Within Session.Scans step
  grows : ∀ session, session.signal.polls ≤ (step session).2.signal.polls
  alike : ∀ first second, first.Alike second →
    (step first).1 = (step second).1 ∧ (step first).2.Alike (step second).2
  heeds : ∀ moment raised calm, Raised moment raised calm →
    (step raised).1 = .error .interrupted ∨
      (step raised).1 = (step calm).1 ∧ Raised moment (step raised).2 (step calm).2 ∧
        Unnoticed moment raised (step raised).2

namespace Scanning

/-- A step of a scan heeds the stop signal. -/
theorem heeded {step : Audit α} (scanning : Scanning step) : Heeds step := by
  intro moment session comes
  refine (scanning.heeds moment session session.calmed (Session.raised_calmed comes)).imp id ?_
  exact fun unnoticed => unnoticed.2.2

/-- A step that takes no look is one of a scan. -/
theorem lift {step : StateM Session α} (heedless : Heedless step) :
    Scanning (liftM step : Audit α) where
  within := heedless.within.lift
  grows session := Nat.le_of_eq (congrArg Signal.polls (heedless.signal session).symm)
  alike first second same := by
    obtain ⟨value, children, spawns⟩ := heedless.same first second same.children same.spawns
    refine ⟨congrArg Except.ok value, ?_, children, spawns⟩
    exact (heedless.signal first).trans (same.signal.trans (heedless.signal second).symm)
  heeds moment raised calm differ := by
    obtain ⟨value, children, spawns⟩ := heedless.same raised calm differ.children differ.spawns
    have kept (session : Session) : ((liftM step : Audit α) session).2.signal = session.signal :=
      heedless.signal session
    refine .inr ⟨congrArg Except.ok value, ⟨?_, ?_, children, spawns, ?_⟩,
      .of_signal_eq differ.comes (kept raised)⟩
    · rw [kept, differ.comes]
    · rw [kept, kept, differ.polls]
    · exact (congrArg Signal.raisedAt (kept calm)).trans differ.quiet

/-- A failure that is handed on is a step of a scan. -/
theorem liftExcept (outcome : Except Failure α) : Scanning (liftM outcome : Audit α) where
  within := within_liftExcept outcome
  grows session := Nat.le_of_eq (by rw [liftExcept_apply])
  alike first second same := by
    rw [liftExcept_apply, liftExcept_apply]
    exact ⟨rfl, same⟩
  heeds moment raised calm differ := by
    rw [liftExcept_apply, liftExcept_apply]
    exact .inr ⟨rfl, differ, .of_signal_eq differ.comes rfl⟩

theorem pure (value : α) : Scanning (pure value : Audit α) := liftExcept (.ok value)

theorem throw (failure : Failure) : Scanning (throw failure : Audit α) :=
  liftExcept (.error failure)

/-- Steps of a scan make one. -/
theorem bind {first : Audit α} {next : α → Audit β} (start : Scanning first)
    (continued : ∀ value, Scanning (next value)) : Scanning (first >>= next : Audit β) where
  within := start.within.bind fun value => (continued value).within
  grows session := by
    have begun := start.grows session
    rcases shape : first session with ⟨failure | value, after⟩ <;> rw [shape] at begun
    · rwa [bind_apply_of_error shape]
    · rw [bind_apply_of_ok shape]
      exact Nat.le_trans begun ((continued value).grows after)
  alike one other same := by
    obtain ⟨values, sessions⟩ := start.alike one other same
    rcases shape : first one with ⟨failure | value, after⟩ <;>
      rcases otherShape : first other with ⟨otherFailure | otherValue, otherAfter⟩ <;>
      rw [shape, otherShape] at values sessions
    · rw [bind_apply_of_error shape, bind_apply_of_error otherShape]
      cases values
      exact ⟨rfl, sessions⟩
    · cases values
    · cases values
    · rw [bind_apply_of_ok shape, bind_apply_of_ok otherShape]
      cases values
      exact (continued value).alike _ _ sessions
  heeds moment raised calm differ := by
    have begun := start.heeds moment raised calm differ
    rcases shape : first raised with ⟨failure | value, after⟩ <;>
      rcases calmShape : first calm with ⟨calmFailure | calmValue, calmAfter⟩ <;>
      rw [shape, calmShape] at begun <;> rcases begun with noticed | ⟨same, differ, unnoticed⟩
    all_goals first | cases noticed | cases same
    · rw [bind_apply_of_error shape]
      exact .inl rfl
    · rw [bind_apply_of_error shape, bind_apply_of_error calmShape]
      exact .inr ⟨rfl, differ, unnoticed⟩
    · rw [bind_apply_of_error shape]
      exact .inl rfl
    · rw [bind_apply_of_ok shape, bind_apply_of_ok calmShape]
      rcases (continued value).heeds moment after calmAfter differ with
        noticed | ⟨same, differ, later⟩
      · exact .inl noticed
      · exact .inr ⟨same, differ, unnoticed.trans later⟩

/-- What is made of a step of a scan is one. -/
theorem map {step : Audit α} (change : α → β) (scanning : Scanning step) :
    Scanning (change <$> step : Audit β) := by
  rw [map_eq_pure_bind]
  exact scanning.bind fun value => pure (change value)

/-- A loop over steps of a scan is one. -/
theorem foldlM {γ : Type} {step : β → γ → Audit β} (each : ∀ value item, Scanning (step value item))
    (items : List γ) (value : β) : Scanning (items.foldlM step value : Audit β) := by
  induction items generalizing value with
  | nil => exact pure value
  | cons item rest ih =>
      rw [List.foldlM_cons]
      exact bind (each value item) ih

/-- A step that takes one look at the stop signal, and is interrupted if it finds a request. -/
theorem of_look {step : Audit α} {outcome : Except Failure α}
    (looks : ∀ session, step session =
      (if session.signal.requested then .error .interrupted else outcome, looked session)) :
    Scanning step where
  within session := by
    rw [looks]
    exact ⟨rfl, rfl, rfl, session.sees_self, rfl, rfl, .of_eq rfl, rfl⟩
  grows session := by
    rw [looks]
    exact Nat.le_succ _
  alike first second same := by
    rw [looks, looks, same.signal]
    exact ⟨rfl, congrArg Signal.poll same.signal, same.children, same.spawns⟩
  heeds moment raised calm differ := by
    rw [looks, looks, Session.requested_eq_of_raisedAt differ.comes,
      Session.requested_of_unasked differ.quiet]
    by_cases now : moment ≤ raised.signal.polls
    · exact .inl (by simp [now])
    · refine .inr ⟨by simp [now], ⟨differ.comes, congrArg (· + 1) differ.polls, differ.children,
        differ.spawns, differ.quiet⟩, differ.comes, ?_⟩
      exact Nat.le_trans (Nat.lt_of_not_le now) (Nat.le_max_left _ _)

end Scanning

/-- The look at the stop signal is a step of a scan. -/
theorem scanning_checkInterrupt : Scanning checkInterrupt := .of_look checkInterrupt_apply

/-- A failure that the stop signal overrules is a step of a scan. -/
theorem scanning_failUnlessInterrupted (failure : Failure) :
    Scanning (failUnlessInterrupted failure : Audit α) := by
  have looks (session : Session) : (failUnlessInterrupted failure : Audit α) session =
      (if session.signal.requested then .error .interrupted else .error failure,
        looked session) := by
    rw [failUnlessInterrupted_apply]
    split <;> rfl
  exact .of_look looks

end Audit

end StoreAudit
