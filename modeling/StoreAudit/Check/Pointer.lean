import StoreAudit.Scan.Feed

/-!
# Checking pointers

A pointer is fine if it is written in the canonical form; a file that should have been a pointer
never is.
-/

namespace StoreAudit

/-- What is wrong with an item, if anything. -/
def ScanItem.problem? : ScanItem → Option Finding
  | .misplaced path treeOid => some (.unexpectedGitObject path treeOid)
  | .pointer found =>
    if found.canonical then none else some (.nonCanonicalPointer found.oid found.blobOid)

namespace ScanItem

/-- Looks at an item and says what is wrong with it. -/
def check (item : ScanItem) : Audit (Option Finding) := do
  match item with
  | .pointer found =>
    Audit.trace (ascii "Examining " ++ found.oid.beforeNul ++ ascii " (" ++ found.name.beforeNul ++
      ascii ")")
  | .misplaced _ _ => pure ()
  pure item.problem?

/-- Looks at an item and reports what is wrong with it. -/
def visit (item : ScanItem) : Audit Unit := do
  match ← item.check with
  | some finding => Audit.report finding
  | none => pure ()

end ScanItem

/-- Checks the items of a feed. -/
def Feed.checkPointers (feed : Feed) : Audit Unit := feed.forEach ScanItem.visit

end StoreAudit
