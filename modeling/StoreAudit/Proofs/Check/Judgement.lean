import StoreAudit.Proofs.Report
import StoreAudit.Proofs.Session.Records

/-!
# Judgements

A pass makes one judgement of each item: a finding, or none, or a failure that ends the pass. Steps
that do what judgements say one after the other do what all of them say (`Audit.Accords.bind`).
-/

namespace StoreAudit

/-- What comes of looking at an item. -/
abbrev Judgement := Except Failure (Option Finding)

namespace Judgement

/-- The findings up to the first failure. -/
def findings : List Judgement → List Finding
  | [] => []
  | .error _ :: _ => []
  | .ok finding :: rest => finding.toList ++ findings rest

/-- The first failure. -/
def failure? : List Judgement → Option Failure
  | [] => none
  | .error failure :: _ => some failure
  | .ok _ :: rest => failure? rest

/-- How a step ends that does what judgements say. -/
def outcome (judgements : List Judgement) : Except Failure Unit :=
  match failure? judgements with
  | none => .ok ()
  | some failure => .error failure

private theorem append_of_failure {first : List Judgement} {failure : Failure}
    (failed : failure? first = some failure) (second : List Judgement) :
    findings (first ++ second) = findings first ∧
      failure? (first ++ second) = failure? first := by
  induction first with
  | nil => cases failed
  | cons judgement rest ih =>
      cases judgement with
      | error other => exact ⟨rfl, rfl⟩
      | ok finding =>
          obtain ⟨same, sameFailure⟩ := ih failed
          exact ⟨congrArg (finding.toList ++ ·) same, sameFailure⟩

/-- Judgements that follow some without a failure add to them. -/
theorem append_of_no_failure {first : List Judgement} (fine : failure? first = none)
    (second : List Judgement) :
    findings (first ++ second) = findings first ++ findings second ∧
      failure? (first ++ second) = failure? second := by
  induction first with
  | nil => exact ⟨rfl, rfl⟩
  | cons judgement rest ih =>
      cases judgement with
      | error other => cases fine
      | ok finding =>
          obtain ⟨same, sameFailure⟩ := ih fine
          refine ⟨?_, sameFailure⟩
          simp only [List.cons_append, findings, same, List.append_assoc]

/-- Two rows of judgements are without a failure if both are. -/
theorem failure?_append_eq_none {first second : List Judgement} :
    failure? (first ++ second) = none ↔ failure? first = none ∧ failure? second = none := by
  cases failed : failure? first with
  | some failure => simp [append_of_failure failed second, failed]
  | none => simp [append_of_no_failure failed second]

/-- Without a failure, every judgement says something. -/
theorem failure?_eq_none_iff {judgements : List Judgement} :
    failure? judgements = none ↔ ∀ judgement ∈ judgements, ∃ found, judgement = .ok found := by
  induction judgements with
  | nil => simp [failure?]
  | cons judgement rest ih => cases judgement <;> simp [failure?, ih]

/-- Without a failure, what is found is what is found by each judgement. -/
theorem findings_of_no_failure {judgements : List Judgement} (fine : failure? judgements = none) :
    findings judgements = judgements.flatMap fun judgement => findings [judgement] := by
  induction judgements with
  | nil => rfl
  | cons judgement rest ih =>
      cases judgement with
      | error failure => cases fine
      | ok found =>
          rw [findings, List.flatMap_cons, ih fine]
          simp [findings]

/-- Every finding is that of a judgement. -/
theorem mem_of_mem_findings {judgements : List Judgement} {finding : Finding}
    (member : finding ∈ findings judgements) : .ok (some finding) ∈ judgements := by
  induction judgements with
  | nil => cases member
  | cons judgement rest ih =>
      cases judgement with
      | error failure => cases member
      | ok found =>
          rcases List.mem_append.mp member with first | later
          · rw [Option.mem_toList.mp first]
            exact List.mem_cons_self
          · exact List.mem_cons_of_mem _ (ih later)

/-- A pass succeeds if nothing that it judges fails. -/
theorem outcome_eq_ok {judgements : List Judgement} :
    outcome judgements = .ok () ↔ failure? judgements = none := by
  unfold outcome
  cases failure? judgements <;> simp

/-- Judgements that only tell of findings. -/
theorem findings_map_some (reported : List Finding) :
    findings (reported.map fun finding => .ok (some finding)) = reported ∧
      failure? (reported.map fun finding => .ok (some finding)) = none := by
  induction reported with
  | nil => exact ⟨rfl, rfl⟩
  | cons finding rest ih => exact ⟨congrArg (finding :: ·) ih.1, ih.2⟩

/-- Judgements that find something of their own wrong with some items. -/
theorem findings_map_ite {α : Type} (items : List α) (wrong : α → Prop) [DecidablePred wrong]
    (finding : α → Finding) :
    let judgements := items.map fun item => .ok (if wrong item then some (finding item) else none)
    failure? judgements = none ∧ findings judgements = (items.filter wrong).map finding := by
  induction items with
  | nil => exact ⟨rfl, rfl⟩
  | cons item rest ih =>
      refine ⟨ih.1, ?_⟩
      simp only [List.map_cons, findings, ih.2]
      by_cases isWrong : wrong item <;> simp [isWrong]

end Judgement

namespace Audit

open Judgement

/-- A step that started in a session has done what judgements say, and else has only observed. -/
structure Accords (session : Session) (result : Except Failure Unit × Session)
    (judgements : List Judgement) : Prop where
  observes : session.Observes result.2
  outcome : result.1 = Judgement.outcome judgements
  report : result.2.report = (findings judgements).foldl Report.add session.report

namespace Accords

variable {session : Session} {judgements more : List Judgement}

/-- To do nothing is to do as judged of nothing. -/
theorem pure (session : Session) : Accords session ((pure () : Audit Unit) session) [] :=
  ⟨refl session, rfl, rfl⟩

/-- Judgements that all were passed come down to what they have found. -/
theorem found {result : Except Failure Unit × Session} (accords : Accords session result judgements)
    (fine : failure? judgements = none) :
    Accords session result ((findings judgements).map fun finding => .ok (some finding)) := by
  obtain ⟨told, toldAll⟩ := findings_map_some (findings judgements)
  refine ⟨accords.observes, ?_, ?_⟩
  · rw [accords.outcome, Judgement.outcome, Judgement.outcome, fine, toldAll]
  · rw [accords.report, told]

/-- To fail is to do as judged with this failure. -/
theorem throw (failure : Failure) (session : Session) :
    Accords session ((throw failure : Audit Unit) session) [.error failure] :=
  ⟨refl session, rfl, rfl⟩

/-- A scan before it makes no difference. -/
theorem after_scan {after : Session} {result : Except Failure Unit × Session}
    (accords : Accords after result judgements) (scans : session.Scans after) :
    Accords session result judgements :=
  ⟨IsTrans.trans _ _ _ scans.observes accords.observes, accords.outcome,
    by rw [accords.report, scans.report]⟩

/-- A step that does as judged without a failure succeeds. -/
theorem eq_ok {result : Except Failure Unit × Session} (accords : Accords session result judgements)
    (fine : failure? judgements = none) : result = (.ok (), result.2) :=
  Prod.ext (by rw [accords.outcome, Judgement.outcome, fine]) rfl

/-- Judgements that are done one after the other are done together. -/
theorem bind {first : Audit Unit} {next : Unit → Audit Unit}
    (start : Accords session (first session) judgements)
    (continued : failure? judgements = none →
      Accords (first session).2 (next () (first session).2) more) :
    Accords session ((first >>= next) session) (judgements ++ more) := by
  have ⟨observes, ended, reported⟩ := start
  cases failed : failure? judgements with
  | some failure =>
      have shape : first session = (.error failure, (first session).2) :=
        Prod.ext (by rw [ended, Judgement.outcome, failed]) rfl
      obtain ⟨sameFindings, sameFailure⟩ := append_of_failure failed more
      rw [bind_apply_of_error shape]
      refine ⟨observes, ?_, ?_⟩
      · rw [Judgement.outcome, sameFailure, failed]
      · rw [sameFindings, reported]
  | none =>
      have shape := start.eq_ok failed
      obtain ⟨sameFindings, sameFailure⟩ := append_of_no_failure failed more
      obtain ⟨observesLater, endedLater, reportedLater⟩ := continued failed
      rw [bind_apply_of_ok shape]
      refine ⟨IsTrans.trans _ _ _ observes observesLater, ?_, ?_⟩
      · rw [endedLater, Judgement.outcome, Judgement.outcome, sameFailure]
      · rw [reportedLater, reported, sameFindings, List.foldl_append]

end Accords

end Audit

end StoreAudit
