import StoreAudit.Session
import StoreAudit.Proofs.Report

/-!
# What a report tells

A report is added to by two kinds of calls, in any order and any number: a finding is reported, or a
line is printed. After any calls the report tells all of them (`Report.Tells`): the findings in the
order of the calls, the objects among them in the order in which they were first reported and as a
set, and a line of text for each call.
-/

namespace StoreAudit

/-- The object concerned, if the problem is one of an object. -/
def Finding.object? : Finding → Option Bytes
  | corruptObject _ oid | openError _ oid _ => some oid
  | nonCanonicalPointer _ _ | unexpectedGitObject _ _ => none

/-- A call that adds to a report. -/
inductive ReportCall where
  | report (finding : Finding)
  | print (line : Bytes)
  deriving DecidableEq

namespace ReportCall

/-- The finding that is reported, if one is. -/
def finding? : ReportCall → Option Finding
  | report finding => some finding
  | print _ => none

/-- The line that is printed. -/
def line : ReportCall → Bytes
  | report finding => finding.line
  | print line => line

/-- What the call does. -/
def perform : ReportCall → StateM Session Unit
  | report finding => Audit.report finding
  | print line => Audit.print line

end ReportCall

namespace Report

/-- The report after a call. -/
def after (report : Report) : ReportCall → Report
  | .report finding => report.add finding
  | .print line => report.print line

/-- The objects that findings are about, each as often as there are findings about it. -/
def objects (findings : List Finding) : List Bytes := findings.filterMap Finding.object?

/-- The report tells what these calls added, and nothing else. -/
structure Tells (report : Report) (calls : List ReportCall) : Prop where
  findings : report.findings = calls.filterMap ReportCall.finding?
  /-- The set and the list name the same objects. -/
  consistent : ∀ oid, oid ∈ report.corruptSet ↔ oid ∈ report.corrupt
  distinct : report.corrupt.Nodup
  complete : ∀ oid, oid ∈ report.corrupt ↔ oid ∈ objects report.findings
  /-- Of two objects, the one that was reported first stands first. -/
  inOrder : report.corrupt.Pairwise fun first later =>
    (objects report.findings).idxOf first < (objects report.findings).idxOf later
  text : report.text = Bytes.ofLines (calls.map ReportCall.line)

private theorem corrupt_add_eq (report : Report) (finding : Finding) :
    (report.add finding).corrupt =
      match finding.object? with
      | some oid => (report.take oid).corrupt
      | none => report.corrupt := by
  cases finding <;> rfl

private theorem objects_concat (findings : List Finding) (finding : Finding) :
    objects (findings ++ [finding]) = objects findings ++ finding.object?.toList := by
  cases object : finding.object? <;> simp [objects, object]

/-- What is new stands after all that stood there before, and what stood there stays in its place.
-/
theorem inOrder_take {report : Report} (consistent : report.Consistent) {named : List Bytes}
    (complete : ∀ oid, oid ∈ report.corrupt ↔ oid ∈ named)
    (inOrder : report.corrupt.Pairwise fun first later => named.idxOf first < named.idxOf later)
    (oid : Bytes) :
    (report.take oid).corrupt.Pairwise fun first later =>
      (named ++ [oid]).idxOf first < (named ++ [oid]).idxOf later := by
  have stays {other : Bytes} (member : other ∈ report.corrupt) :
      (named ++ [oid]).idxOf other = named.idxOf other := by
    rw [List.idxOf_append, if_pos ((complete other).mp member)]
  have kept : report.corrupt.Pairwise fun first later =>
      (named ++ [oid]).idxOf first < (named ++ [oid]).idxOf later := by
    refine inOrder.imp_of_mem fun one other before => ?_
    rwa [stays one, stays other]
  rw [corrupt_take]
  split
  · exact kept
  · rename_i unknown
    have fresh : oid ∉ named := by rwa [← complete, ← consistent]
    have last : (named ++ [oid]).idxOf oid = named.length := by
      rw [List.idxOf_append, if_neg fresh]
      simp
    refine List.pairwise_append.mpr ⟨kept, List.pairwise_singleton _ _, ?_⟩
    intro first member later only
    obtain rfl := List.mem_singleton.mp only
    rw [last, stays member]
    exact List.idxOf_lt_length_of_mem ((complete first).mp member)

/-- A fresh report tells that nothing was added to it. -/
theorem tells_nil (dryRun : Bool) : Tells { dryRun } [] where
  findings := rfl
  consistent := consistent_fresh dryRun
  distinct := .nil
  complete _ := .rfl
  inOrder := .nil
  text := rfl

private theorem Tells.print {report : Report} {calls : List ReportCall} (tells : report.Tells calls)
    (line : Bytes) : (report.print line).Tells (calls ++ [.print line]) where
  findings := by simp [tells.findings, ReportCall.finding?]
  consistent := tells.consistent
  distinct := tells.distinct
  complete := tells.complete
  inOrder := tells.inOrder
  text := by simp [tells.text, Bytes.ofLines, ReportCall.line]

private theorem Tells.add {report : Report} {calls : List ReportCall} (tells : report.Tells calls)
    (finding : Finding) : (report.add finding).Tells (calls ++ [.report finding]) where
  findings := by simp [tells.findings, ReportCall.finding?]
  text := by simp [tells.text, Bytes.ofLines, ReportCall.line]
  consistent := Consistent.add tells.consistent finding
  distinct := by
    rw [corrupt_add_eq]
    cases finding.object? with
    | none => exact tells.distinct
    | some oid => exact nodup_corrupt_take tells.consistent tells.distinct oid
  complete oid := by
    rw [corrupt_add_eq, findings_add, objects_concat, List.mem_append, ← tells.complete]
    cases finding.object? with
    | none => simp
    | some object =>
        rw [← (Consistent.take tells.consistent object) oid, mem_corruptSet_take,
          tells.consistent oid, Option.toList_some, List.mem_singleton]
        exact or_comm
  inOrder := by
    rw [corrupt_add_eq, findings_add, objects_concat]
    cases finding.object? with
    | none => simpa using tells.inOrder
    | some oid => exact inOrder_take tells.consistent tells.complete tells.inOrder oid

private theorem Tells.after {report : Report} {calls : List ReportCall} (tells : report.Tells calls)
    (call : ReportCall) : (report.after call).Tells (calls ++ [call]) := by
  cases call with
  | report finding => exact tells.add finding
  | print line => exact tells.print line

private theorem Tells.foldl {report : Report} {done : List ReportCall} (tells : report.Tells done)
    (calls : List ReportCall) : (calls.foldl Report.after report).Tells (done ++ calls) := by
  induction calls generalizing report done with
  | nil => simpa using tells
  | cons call rest ih => simpa using ih (tells.after call)

/-- Nothing was found exactly if nothing was reported. -/
theorem Tells.isOk_iff {report : Report} {calls : List ReportCall} (tells : report.Tells calls) :
    report.isOk = true ↔ ∀ finding, .report finding ∉ calls := by
  rw [isOk, List.isEmpty_iff, tells.findings, List.filterMap_eq_nil_iff]
  constructor
  · exact fun silent finding member => nomatch silent _ member
  · intro silent call member
    cases call with
    | report finding => exact absurd member (silent finding)
    | print line => rfl

/-- The same calls in another order report the same findings about the same objects. -/
theorem Tells.perm {report other : Report} {calls others : List ReportCall}
    (tells : report.Tells calls) (otherTells : other.Tells others) (perm : others.Perm calls) :
    other.findings.Perm report.findings ∧
      ∀ oid, oid ∈ other.corrupt ↔ oid ∈ report.corrupt := by
  have findings : other.findings.Perm report.findings := by
    rw [tells.findings, otherTells.findings]
    exact perm.filterMap _
  refine ⟨findings, fun oid => ?_⟩
  rw [tells.complete, otherTells.complete]
  exact (findings.filterMap Finding.object?).mem_iff

end Report

namespace Audit

private theorem report_perform (call : ReportCall) (session : Session) :
    (call.perform session).2.report = session.report.after call := by
  cases call <;> rfl

private theorem report_forM_perform (calls : List ReportCall) (session : Session) :
    (calls.forM ReportCall.perform session).2.report =
      calls.foldl Report.after session.report := by
  induction calls generalizing session with
  | nil => rfl
  | cons call rest ih =>
      change (rest.forM ReportCall.perform (call.perform session).2).2.report = _
      rw [ih, report_perform]
      rfl

/-- **A report tells the calls that made it.** -/
theorem report_tells_calls (calls : List ReportCall) (dryRun : Bool) (session : Session) :
    let reported (calls : List ReportCall) :=
      (calls.forM ReportCall.perform { session with report := { dryRun } }).2.report
    (reported calls).Tells calls ∧
    ((reported calls).isOk = true ↔ ∀ finding, .report finding ∉ calls) ∧
    ∀ others : List ReportCall, others.Perm calls →
      (reported others).findings.Perm (reported calls).findings ∧
      ∀ oid, oid ∈ (reported others).corrupt ↔ oid ∈ (reported calls).corrupt := by
  intro reported
  have tells (calls : List ReportCall) : (reported calls).Tells calls := by
    have told := (Report.tells_nil dryRun).foldl calls
    rwa [← report_forM_perform calls { session with report := { dryRun } }] at told
  exact ⟨tells calls, (tells calls).isOk_iff,
    fun others perm => (tells calls).perm (tells others) perm⟩

/-- Two findings about one object with one about another object between them, and a finding about a
pointer to a third one. -/
def sampleCalls : List ReportCall :=
  [.report (.nonCanonicalPointer (ascii "c1") (ascii "f1")),
    .report (.corruptObject (ascii "a.bin") (ascii "b1")),
    .print (ascii "pass"),
    .report (.openError (ascii "b.bin") (ascii "a1") (ascii "denied")),
    .report (.corruptObject (ascii "c.bin") (ascii "b1"))]

/-- Findings of two objects, one of them twice, and of none. -/
theorem report_tells_sampleCalls :
    let reported (calls : List ReportCall) := (calls.forM ReportCall.perform {}).2.report
    (reported sampleCalls).Tells sampleCalls ∧
    (reported sampleCalls).corrupt = [ascii "b1", ascii "a1"] ∧
    (reported sampleCalls.reverse).findings.Perm (reported sampleCalls).findings ∧
    ∀ oid, oid ∈ (reported sampleCalls.reverse).corrupt ↔ oid ∈ [ascii "b1", ascii "a1"] := by
  intro reported
  obtain ⟨tells, -, permuted⟩ := report_tells_calls sampleCalls false {}
  have objects : (reported sampleCalls).corrupt = [ascii "b1", ascii "a1"] := by decide +kernel
  obtain ⟨findings, corrupt⟩ := permuted sampleCalls.reverse sampleCalls.reverse_perm
  exact ⟨tells, objects, findings, fun oid => (corrupt oid).trans (by rw [← objects])⟩

end Audit

end StoreAudit
