import StoreAudit.Check.Run
import StoreAudit.Proofs.Check.Judgement
import StoreAudit.Proofs.Scan.Feed

/-!
# Visits

Visiting an item makes the judgement that the files, as they are then, give of it, and what a scan
can tell of the session stays the same. So visiting the items of a feed makes the judgements of
everything that the feed would deliver by itself.
-/

namespace StoreAudit

open Audit

/-- The later session differs from the earlier one as after a look at an item. -/
structure Session.Examines (before after : Session) : Prop where
  observes : before.Observes after
  alike : after.Alike before

instance : IsPreorder Session Session.Examines where
  refl session := ⟨refl session, .refl session⟩
  trans _ _ _ first second :=
    ⟨IsTrans.trans _ _ _ first.observes second.observes, second.alike.trans first.alike⟩

/-- A report examines, and does no more. -/
theorem within_report (finding : Finding) : Within Session.Examines (report finding) := by
  intro session
  let text := ascii "fsck: " ++ finding.line.beforeNul ++ [Ascii.newline]
  exact ⟨⟨rfl, rfl, rfl, ⟨[(Journal.noteLevel, text)], rfl⟩, [finding], rfl⟩, ⟨rfl, rfl, rfl⟩⟩

/-- A report adds the finding. -/
theorem report_report (finding : Finding) (session : Session) :
    (report finding session).2.report = session.report.add finding := rfl

/-- What the object of an item is found to be in files. -/
def Store.judge (store : Store) (files : FileTree) (item : ScanItem) : Judgement := do
  let pointer ← item.onlyPointer
  let path ← store.objectPath pointer.oid
  pointer.problemAt? files path

/-- An item that is no pointer is a failure of the scan. -/
theorem Store.judge_misplaced (store : Store) (files : FileTree) (path treeOid : Bytes) :
    store.judge files (.misplaced path treeOid) = .error (.unexpectedScanError path) := rfl

/-- What is judged of a pointer is what is wrong with its object. -/
theorem Store.judge_pointer (store : Store) (files : FileTree) (pointer : FoundPointer) :
    store.judge files (.pointer pointer) =
      match store.objectPath pointer.oid with
      | .error failure => .error failure
      | .ok path => pointer.problemAt? files path := by
  change (store.objectPath pointer.oid >>= fun path => pointer.problemAt? files path) = _
  cases store.objectPath pointer.oid <;> rfl

/-- A record for tracing is within an examination. -/
theorem examines_trace (line : Bytes) (session : Session) :
    session.Examines (trace line session).2 := by
  have sees : session.Sees (trace line session).2.files :=
    ⟨[(Journal.traceLevel, line ++ [Ascii.newline])], rfl⟩
  exact ⟨⟨rfl, rfl, rfl, sees, [], rfl⟩, ⟨rfl, rfl, rfl⟩⟩

/-- A look at an object gives its judgement in the files as they are by then. -/
theorem Store.checkObject_apply (store : Store) (pointer : FoundPointer) (session : Session) :
    ∃ files after, session.Sees files ∧ session.Examines after ∧ after.report = session.report ∧
      store.checkObject pointer session = (store.judge files (.pointer pointer), after) := by
  cases named : store.objectPath pointer.oid with
  | error failure =>
      refine ⟨session.files, session, session.sees_self, refl session, rfl, ?_⟩
      rw [judge_pointer, checkObject, checkObjectBy, named]
      rfl
  | ok path =>
      let traced := (trace (pointer.examination path) session).2
      have examines : session.Examines traced := examines_trace _ session
      let opened := { traced with opened := traced.opened ++ [path] }
      have further : traced.Examines opened :=
        ⟨⟨rfl, rfl, rfl, traced.sees_self, [], rfl⟩, ⟨rfl, rfl, rfl⟩⟩
      refine ⟨traced.files, opened, examines.observes.files, IsTrans.trans _ _ _ examines further,
        rfl, ?_⟩
      rw [judge_pointer, checkObject, checkObjectBy, named]
      change (liftM (pointer.problemAt? traced.files path) : Audit (Option Finding)) opened = _
      rw [liftExcept_apply]

/-- Visiting an item makes the judgement of its object in the files as they are then. -/
theorem Store.visitObject_accords (store : Store) (item : ScanItem) (session : Session) :
    session.Examines (store.visitObject item session).2 ∧
      ∃ files, session.Sees files ∧
        Accords session (store.visitObject item session) [store.judge files item] := by
  cases item with
  | misplaced path treeOid =>
      exact ⟨refl session, session.files, session.sees_self, refl session, rfl, rfl⟩
  | pointer pointer =>
      obtain ⟨files, after, sees, examines, reported, checked⟩ :=
        store.checkObject_apply pointer session
      have only : (liftM (ScanItem.pointer pointer).onlyPointer : Audit FoundPointer) session =
          (.ok pointer, session) := rfl
      rw [visitObject, bind_apply_of_ok only]
      cases judgement : store.judge files (.pointer pointer) with
      | error failure =>
          rw [judgement] at checked
          rw [bind_apply_of_error checked]
          refine ⟨examines, files, sees, ?_⟩
          rw [judgement]
          exact ⟨examines.observes, rfl, reported⟩
      | ok found =>
          rw [judgement] at checked
          rw [bind_apply_of_ok checked]
          cases found with
          | none =>
              refine ⟨examines, files, sees, ?_⟩
              rw [judgement]
              exact ⟨examines.observes, rfl, reported⟩
          | some finding =>
              have further : session.Examines (report finding after).2 :=
                IsTrans.trans _ _ _ examines (within_report finding after)
              refine ⟨further, files, sees, ?_⟩
              rw [judgement]
              refine ⟨further.observes, rfl, ?_⟩
              change (report finding after).2.report = _
              rw [report_report, reported]
              rfl

/-- A visit to a pointer does as judged. -/
theorem ScanItem.visit_accords (item : ScanItem) (session : Session) :
    session.Examines (item.visit session).2 ∧
      Accords session (item.visit session) [.ok item.problem?] := by
  obtain ⟨after, examines, reported, checked⟩ : ∃ after, session.Examines after ∧
      after.report = session.report ∧ item.check session = (.ok item.problem?, after) := by
    cases item with
    | misplaced path treeOid => exact ⟨session, refl session, rfl, rfl⟩
    | pointer found =>
        let line := ascii "Examining " ++ found.oid.beforeNul ++ ascii " (" ++
          found.name.beforeNul ++ ascii ")"
        exact ⟨(trace line session).2, examines_trace line session, rfl, rfl⟩
  rw [visit, bind_apply_of_ok checked]
  cases item.problem? with
  | none => exact ⟨examines, examines.observes, rfl, reported⟩
  | some finding =>
      have further : session.Examines (report finding after).2 :=
        IsTrans.trans _ _ _ examines (within_report finding after)
      refine ⟨further, further.observes, rfl, ?_⟩
      change (report finding after).2.report = _
      rw [report_report, reported]
      rfl

end StoreAudit
