import StoreAudit.Finding
import StoreAudit.Text.Split

/-!
# Reports

What one check has found so far: the findings in order, the objects to take out of service in the
order in which they were first reported, the same objects as a set to look them up in, and the text
printed along the way.
-/

namespace StoreAudit

/-- The results of one check. -/
structure Report where
  /-- Whether the check must leave the store as it is. -/
  dryRun : Bool := false
  findings : List Finding := []
  /-- The objects with a finding of their own, in the order in which they were first reported. -/
  corrupt : List Bytes := []
  /-- The objects that were reported, as a set: in no order that counts. -/
  corruptSet : List Bytes := []
  /-- Everything printed, line by line. -/
  text : Bytes := []
  deriving DecidableEq, Repr

namespace Report

/-- The report with one more line of text. -/
def print (report : Report) (line : Bytes) : Report :=
  { report with text := report.text ++ line ++ [Ascii.newline] }

/-- A set of objects with one more, and whether it was not in it before. -/
def insertObject (oids : List Bytes) (oid : Bytes) : List Bytes × Bool :=
  (oids.insert oid, !oids.contains oid)

/-- The report with an object to take out of service, which is listed unless the set knows it. -/
def take (report : Report) (oid : Bytes) : Report :=
  let (corruptSet, isNew) := insertObject report.corruptSet oid
  { report with
    corruptSet := corruptSet
    corrupt := if isNew then report.corrupt ++ [oid] else report.corrupt }

/-- The report with one more finding, which is also printed. -/
def add (report : Report) (finding : Finding) : Report :=
  let listed := { report with findings := report.findings ++ [finding] }
  (if finding.isObjectFinding then listed.take finding.oid else listed).print finding.line

/-- Whether nothing was found. -/
def isOk (report : Report) : Bool := report.findings.isEmpty

@[simp] theorem findings_add (report : Report) (finding : Finding) :
    (report.add finding).findings = report.findings ++ [finding] := by
  cases finding <;> rfl

@[simp] theorem text_add (report : Report) (finding : Finding) :
    (report.add finding).text = report.text ++ finding.line ++ [Ascii.newline] := by
  cases finding <;> rfl

@[simp] theorem findings_print (report : Report) (line : Bytes) :
    (report.print line).findings = report.findings := rfl

@[simp] theorem text_print (report : Report) (line : Bytes) :
    (report.print line).text = report.text ++ line ++ [Ascii.newline] := rfl

end Report

end StoreAudit
