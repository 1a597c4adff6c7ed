import StoreAudit.Proofs.Session.Step

/-!
# What holds after steps that succeed

A step `Ensures` something of its value and of the session it leaves if, begun where something else
holds, it can succeed only so. Nothing is said of steps that fail: a check that fails promises
nothing about the processes it started.
-/

namespace StoreAudit.Audit

variable {α β : Type} {before : Session → Prop} {middle : α → Session → Prop}
  {after : β → Session → Prop}

/-- Begun where `before` holds, the step succeeds only where `middle` holds of its value and of the
session it leaves. -/
def Ensures (before : Session → Prop) (step : Audit α) (middle : α → Session → Prop) : Prop :=
  ∀ session value last, before session → step session = (.ok value, last) → middle value last

/-- To give a value ensures what is so already. -/
theorem ensures_pure {value : α} (holds : ∀ session, before session → middle value session) :
    Ensures before (pure value) middle := by
  intro session given last begun succeeded
  cases succeeded
  exact holds session begun

/-- What fails ensures everything of its values. -/
theorem ensures_throw (failure : Failure) : Ensures before (throw failure) middle := by
  intro session given last _ succeeded
  cases succeeded

/-- What the first step ensures is there for the next. -/
theorem Ensures.bind {first : Audit α} {next : α → Audit β} (start : Ensures before first middle)
    (continued : ∀ value, Ensures (middle value) (next value) after) :
    Ensures before (first >>= next) after := by
  intro session value last begun succeeded
  obtain ⟨given, between, started, finished⟩ := bind_eq_ok succeeded
  exact continued given _ _ _ (start _ _ _ begun started) finished

/-- More can be asked before and less said after. -/
theorem Ensures.mono {stronger : Session → Prop} {weaker : α → Session → Prop} {step : Audit α}
    (ensures : Ensures before step middle) (begins : ∀ session, stronger session → before session)
    (ends : ∀ value session, middle value session → weaker value session) :
    Ensures stronger step weaker :=
  fun session value last begun succeeded =>
    ends value last (ensures session value last (begins session begun) succeeded)

/-- A fact that does not depend on the session can be used to show what a step ensures. -/
theorem Ensures.of_fact {fact : Prop} {step : Audit α}
    (ensures : fact → Ensures before step middle) :
    Ensures (fun session => fact ∧ before session) step middle :=
  fun session value last begun => ensures begun.1 session value last begun.2

/-- What is ensured and what is given can be said together. -/
theorem Ensures.and_yields {result : α → Prop} {step : Audit α}
    (ensures : Ensures before step middle) (yields : Yields step result) :
    Ensures before step fun value session => result value ∧ middle value session :=
  fun session value last begun succeeded =>
    ⟨yields session value last succeeded, ensures session value last begun succeeded⟩

/-- A step that stays within a relation ensures what the relation keeps. -/
theorem Ensures.of_within {relation : Session → Session → Prop} {step : Audit α}
    (within : Within relation step)
    (keeps : ∀ session last, relation session last → before session → before last) :
    Ensures before step fun _ => before := by
  intro session value last begun succeeded
  have related := within session
  rw [succeeded] at related
  exact keeps session last related begun

/-- A loop ensures what each of its rounds keeps. -/
theorem Ensures.foldlM {γ : Type} {step : β → γ → Audit β} (invariant : β → Session → Prop)
    (each : ∀ value item, Ensures (invariant value) (step value item) invariant) (items : List γ)
    (value : β) : Ensures (invariant value) (items.foldlM step value) invariant := by
  induction items generalizing value with
  | nil => exact ensures_pure fun _ => id
  | cons item rest ih =>
      rw [List.foldlM_cons]
      exact (each value item).bind ih

end StoreAudit.Audit
