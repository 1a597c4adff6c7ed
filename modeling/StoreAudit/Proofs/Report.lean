import StoreAudit.Report

/-!
# Reports after findings

What findings added one after the other make of a report. The list of objects and the set of them
are kept apart, and stay of the same objects (`Report.Consistent`).
-/

namespace StoreAudit.Report

/-- Findings are added in their order. -/
theorem findings_foldl_add (report : Report) (findings : List Finding) :
    (findings.foldl add report).findings = report.findings ++ findings := by
  induction findings generalizing report with
  | nil => simp
  | cons finding rest ih => simp [ih]

/-- Each finding adds its line. -/
theorem text_foldl_add (report : Report) (findings : List Finding) :
    (findings.foldl add report).text =
      report.text ++ Bytes.ofLines (findings.map Finding.line) := by
  induction findings generalizing report with
  | nil => simp [Bytes.ofLines]
  | cons finding rest ih => simp [ih, Bytes.ofLines]

/-- The set holds the objects of the list. -/
def Consistent (report : Report) : Prop :=
  ∀ oid, oid ∈ report.corruptSet ↔ oid ∈ report.corrupt

/-- A new report is consistent. -/
theorem consistent_fresh (dryRun : Bool) : Consistent { dryRun } := fun _ => .rfl

/-- Taking an object adds it to the set. -/
theorem mem_corruptSet_take {report : Report} {oid other : Bytes} :
    other ∈ (report.take oid).corruptSet ↔ other = oid ∨ other ∈ report.corruptSet :=
  List.mem_insert_iff

/-- Taking an object adds it to the list unless the set has it. -/
theorem corrupt_take (report : Report) (oid : Bytes) :
    (report.take oid).corrupt =
      if oid ∈ report.corruptSet then report.corrupt else report.corrupt ++ [oid] := by
  by_cases known : oid ∈ report.corruptSet <;> simp [take, insertObject, known]

/-- What is listed now was listed or is new to the set. -/
theorem mem_corrupt_take {report : Report} {oid other : Bytes} :
    other ∈ (report.take oid).corrupt ↔
      other ∈ report.corrupt ∨ other ∉ report.corruptSet ∧ other = oid := by
  rw [corrupt_take]
  split
  · rename_i known
    refine ⟨.inl, fun member => member.elim id fun ⟨absent, same⟩ => ?_⟩
    exact absurd (same ▸ known) absent
  · rename_i fresh
    rw [List.mem_append, List.mem_singleton]
    exact or_congr_right ⟨fun same => ⟨same ▸ fresh, same⟩, And.right⟩

/-- Taking an object keeps list and set in step. -/
theorem Consistent.take {report : Report} (consistent : report.Consistent) (oid : Bytes) :
    (report.take oid).Consistent := by
  intro other
  rw [mem_corruptSet_take, mem_corrupt_take, consistent other]
  by_cases known : other ∈ report.corrupt <;> simp [known]

/-- No object is listed twice. -/
theorem nodup_corrupt_take {report : Report} (consistent : report.Consistent)
    (nodup : report.corrupt.Nodup) (oid : Bytes) : (report.take oid).corrupt.Nodup := by
  rw [corrupt_take]
  split
  · exact nodup
  · rename_i fresh
    rw [consistent] at fresh
    refine List.nodup_append.mpr ⟨nodup, by simp, ?_⟩
    rintro other member last only rfl
    exact fresh (List.mem_singleton.mp only ▸ member)

/-- A finding of an object takes it out of service, and no other finding does. -/
theorem corrupt_add (report : Report) (finding : Finding) :
    (report.add finding).corrupt =
      if finding.isObjectFinding then (report.take finding.oid).corrupt else report.corrupt := by
  cases finding <;> rfl

private theorem corruptSet_add (report : Report) (finding : Finding) :
    (report.add finding).corruptSet =
      if finding.isObjectFinding then (report.take finding.oid).corruptSet
      else report.corruptSet := by
  cases finding <;> rfl

private theorem mem_corrupt_add {report : Report} {finding : Finding} {oid : Bytes} :
    oid ∈ (report.add finding).corrupt ↔ oid ∈ report.corrupt ∨
      oid ∉ report.corruptSet ∧ finding.isObjectFinding = true ∧ oid = finding.oid := by
  rw [corrupt_add]
  cases finding.isObjectFinding <;> simp [mem_corrupt_take]

private theorem mem_corruptSet_add {report : Report} {finding : Finding} {oid : Bytes} :
    oid ∈ (report.add finding).corruptSet ↔
      oid ∈ report.corruptSet ∨ finding.isObjectFinding = true ∧ oid = finding.oid := by
  rw [corruptSet_add]
  cases finding.isObjectFinding <;> simp [mem_corruptSet_take, or_comm]

/-- A finding keeps list and set in step. -/
theorem Consistent.add {report : Report} (consistent : report.Consistent) (finding : Finding) :
    (report.add finding).Consistent := by
  intro oid
  rw [mem_corruptSet_add, mem_corrupt_add, consistent oid]
  by_cases known : oid ∈ report.corrupt <;> simp [known]

/-- Findings list no object twice. -/
theorem nodup_corrupt_foldl_add {report : Report} (consistent : report.Consistent)
    (nodup : report.corrupt.Nodup) (findings : List Finding) :
    (findings.foldl add report).corrupt.Nodup := by
  induction findings generalizing report with
  | nil => exact nodup
  | cons finding rest ih =>
      apply ih (consistent.add finding)
      rw [corrupt_add]
      cases finding.isObjectFinding with
      | false => exact nodup
      | true => exact nodup_corrupt_take consistent nodup finding.oid

/-- Findings add the objects that they are about, unless the set has them. -/
theorem mem_corrupt_foldl_add {report : Report} {findings : List Finding} {oid : Bytes} :
    oid ∈ (findings.foldl add report).corrupt ↔ oid ∈ report.corrupt ∨
      oid ∉ report.corruptSet ∧
        ∃ finding ∈ findings, finding.isObjectFinding = true ∧ oid = finding.oid := by
  induction findings generalizing report with
  | nil => simp
  | cons finding rest ih =>
      rw [List.foldl_cons, ih, mem_corrupt_add, mem_corruptSet_add]
      simp only [List.mem_cons, or_and_right, exists_or, exists_eq_left]
      by_cases known : oid ∈ report.corruptSet
      · simp [known]
      by_cases here : finding.isObjectFinding = true ∧ oid = finding.oid <;> simp [known, here]

/-- Objects are taken out of service only for findings of their own. -/
theorem corrupt_foldl_add_eq_nil {report : Report} (consistent : report.Consistent)
    {findings : List Finding} :
    (findings.foldl add report).corrupt = [] ↔
      report.corrupt = [] ∧ ∀ finding ∈ findings, finding.isObjectFinding = false := by
  simp only [List.eq_nil_iff_forall_not_mem, mem_corrupt_foldl_add, not_or, not_and, forall_and]
  refine and_congr_right fun none => ?_
  have unknown (oid : Bytes) : oid ∉ report.corruptSet := fun known =>
    none oid ((consistent oid).mp known)
  simp only [unknown, not_false_eq_true, forall_const, not_exists, not_and]
  refine ⟨fun other finding member => ?_, fun other oid finding member isObject => ?_⟩
  · exact Bool.eq_false_iff.mpr fun isObject => other finding.oid finding member isObject rfl
  · rw [other finding member] at isObject
    cases isObject

/-- Objects are taken out of service in the order in which they were first reported. -/
theorem corrupt_prefix_foldl_add (report : Report) (findings : List Finding) :
    report.corrupt <+: (findings.foldl add report).corrupt := by
  induction findings generalizing report with
  | nil => exact List.prefix_refl _
  | cons finding rest ih =>
      refine List.IsPrefix.trans ?_ (ih (report.add finding))
      rw [corrupt_add, corrupt_take]
      split
      · split
        · exact List.prefix_refl _
        · exact List.prefix_append _ _
      · exact List.prefix_refl _

/-- The same findings in another order name the same objects. -/
theorem corrupt_foldl_add_perm {report : Report} (consistent : report.Consistent)
    (nodup : report.corrupt.Nodup) {findings others : List Finding} (perm : others.Perm findings) :
    (others.foldl add report).corrupt.Perm (findings.foldl add report).corrupt := by
  rw [List.perm_ext_iff_of_nodup (nodup_corrupt_foldl_add consistent nodup _)
    (nodup_corrupt_foldl_add consistent nodup _)]
  intro oid
  simp [mem_corrupt_foldl_add, perm.mem_iff]

end StoreAudit.Report
