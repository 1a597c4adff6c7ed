import StoreAudit.Git.Lookup
import StoreAudit.Proofs.Session.Scanning

/-!
# Children and look-ups as steps of a scan
-/

namespace StoreAudit

open Audit

namespace Child

private theorem heedless_enter (child : Child) : Heedless child.enter := by
  refine ⟨?_, fun _ => rfl, fun first second children spawns => ?_⟩
  · exact fun _ => ⟨rfl, rfl, rfl, ⟨[], rfl⟩, rfl, rfl, .of_eq rfl, rfl⟩
  · change child.launch first.children.length = child.launch second.children.length ∧ _
    exact ⟨by rw [children], congrArg (· ++ [none]) children, spawns⟩

private theorem scanning_start (child : Child) : Scanning child.start := by
  refine .bind (.lift (heedless_trace _)) fun _ => ?_
  refine .bind (.lift heedless_spawn) fun spawn => ?_
  cases spawn.failure? with
  | some failure => exact .throw failure
  | none => exact .lift child.heedless_enter

private theorem scanning_finish (child : Child) : Scanning child.finish := by
  unfold finish
  split
  · exact .throw _
  · refine .bind (.lift ⟨?_, fun _ => rfl, fun first second children spawns => ?_⟩) fun _ => .pure _
    · exact fun _ => ⟨rfl, rfl, rfl, ⟨[], rfl⟩, rfl, rfl, .of_eq rfl, rfl⟩
    · exact ⟨rfl, congrArg (List.set · _ _) children, spawns⟩

private theorem scanning_accept (child : Child) (status : Int) : Scanning (child.accept status) :=
    by
  unfold accept
  split
  · exact .bind (.lift (heedless_note _)) fun _ => scanning_failUnlessInterrupted _
  · exact .pure ()

/-- Waiting for a child is a step of a scan. -/
theorem scanning_wait (child : Child) : Scanning child.wait :=
  .bind child.scanning_finish fun (status, reaped) => reaped.scanning_accept status

end Child

namespace Repository

variable (repository : Repository) (arguments : List Bytes)

/-- Starting a command is a step of a scan. -/
theorem scanning_start : Scanning (repository.start arguments) :=
  .bind (Child.idle repository arguments).scanning_start fun _ => .pure _

/-- Trying a command is a step of a scan. -/
theorem scanning_tryRun : Scanning (repository.tryRun arguments) :=
  .bind (repository.scanning_start arguments) fun _ =>
    .bind (Child.scanning_finish _) fun _ => .pure _

/-- Running a command is a step of a scan. -/
theorem scanning_run : Scanning (repository.run arguments) :=
  .bind (repository.scanning_start arguments) fun _ =>
    .bind (Child.scanning_wait _) fun _ => .pure _

end Repository

namespace Lookup

private theorem scanning_conclude (lookup : Lookup) (outcome : LookupOutcome) :
    Scanning (lookup.conclude outcome) := by
  cases outcome with
  | found object => exact .pure _
  | missing => exact .pure _
  | badName => exact .throw _
  | ended => exact scanning_failUnlessInterrupted _
  | shortRead => exact scanning_failUnlessInterrupted _
  | badHeader line => exact .throw _
  | badTrailer digest => exact .throw _
  | pipe problem => exact .throw _

private theorem scanning_get? (lookup : Lookup) (name : Bytes) : Scanning (lookup.get? name) :=
  .bind (scanning_conclude _ _) fun _ => .pure _

/-- A look-up of an object is a step of a scan. -/
theorem scanning_get (lookup : Lookup) (name : Bytes) : Scanning (lookup.get name) := by
  refine .bind (lookup.scanning_get? name) fun (found, asked) => ?_
  cases found with
  | none => exact .throw _
  | some object => exact .pure _

/-- Starting a look-up is a step of a scan. -/
theorem scanning_start (repository : Repository) (mode : LookupMode) :
    Scanning (start repository mode) :=
  .bind (Child.scanning_start _) fun _ => .pure _

/-- Closing a look-up is a step of a scan. -/
theorem scanning_close (lookup : Lookup) : Scanning lookup.close := by
  unfold close
  split
  · exact Child.scanning_wait _
  · exact .pure ()

end Lookup

end StoreAudit
