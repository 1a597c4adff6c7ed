import StoreAudit.Proofs.Scan.Blobs
import StoreAudit.Scan.History
import StoreAudit.Scan.Trees

/-!
# What scans read

A scan reads a content only if type and size allow it to be a pointer. In `HistoryScan.nextIf` and
`TreeScan.nextIf` this condition is a parameter. With `mayBePointer` they are the scans that run;
with `FoundObject.isFile` and `TreeEntry.isBlob` they read every file. The conditions in between are
the fair ones.
-/

namespace StoreAudit

/-- A condition on entries that passes files only, and every file that can be a pointer. -/
abbrev TreeEntry.FairFor (reads : TreeEntry → Bool) : Prop :=
  Fair TreeEntry.isBlob TreeEntry.mayBePointer reads

private theorem TreeEntry.isBlob_of_mayBePointer {entry : TreeEntry}
    (may : entry.mayBePointer = true) : entry.isBlob = true := by
  unfold mayBePointer at may
  exact (Bool.and_eq_true_iff.mp (Bool.and_eq_true_iff.mp may).1).1

/-- The look at type and size passes over no pointer. -/
theorem TreeEntry.fairFor_mayBePointer : FairFor mayBePointer :=
  ⟨fun _ => isBlob_of_mayBePointer, fun _ => id⟩

/-- The look at the type passes over no pointer. -/
theorem TreeEntry.fairFor_isBlob : FairFor isBlob :=
  ⟨fun _ => id, fun _ => isBlob_of_mayBePointer⟩

namespace HistoryScan

/-- The look-up of an object that reads the content under a condition on its header. -/
def lookUpIf (reads : FoundObject → Bool) (scan : HistoryScan) (oid name : Bytes) :
    Audit (Option FoundPointer × HistoryScan) := do
  let (header, headers) ← scan.headers.get oid
  let scan := { scan with headers }
  if reads header then
    let (object, contents) ← scan.contents.get oid
    pure (FoundPointer.ofBlob? name oid object.data, { scan with contents })
  else pure (none, scan)

/-- Goes on to the next pointer, or to the end. -/
def advanceIf (reads : FoundObject → Bool) (scan : HistoryScan) :
    List Bytes → Audit (Option (ScanItem × HistoryScan))
  | [] => do
    Audit.checkInterrupt
    scan.close
    pure none
  | record :: rest => do
    Audit.checkInterrupt
    match candidate? scan.filter record with
    | none => scan.advanceIf reads rest
    | some (oid, name) =>
      let (found, scan) ← scan.lookUpIf reads oid name
      match found with
      | none => scan.advanceIf reads rest
      | some pointer =>
        pure (some (.pointer pointer,
          { scan with listing := { scan.listing with records := rest } }))

/-- The next pointer and the scan after it, or nothing at the end. -/
def nextIf (reads : FoundObject → Bool) (scan : HistoryScan) :
    Audit (Option (ScanItem × HistoryScan)) :=
  scan.advanceIf reads scan.listing.records

private theorem advanceIf_mayBePointer (scan : HistoryScan) (records : List Bytes) :
    scan.advanceIf FoundObject.mayBePointer records = scan.advance records := by
  induction records generalizing scan with
  | nil => rfl
  | cons record rest ih =>
      unfold advanceIf advance
      simp only [ih]
      rfl

/-- The scan looks at the objects that may be pointers. -/
theorem nextIf_mayBePointer : nextIf FoundObject.mayBePointer = next :=
  funext fun scan => scan.advanceIf_mayBePointer scan.listing.records

end HistoryScan

namespace TreeScan

/-- The look-up of an entry that reads the content under a condition. -/
def lookUpIf (reads : TreeEntry → Bool) (scan : TreeScan) (entry : TreeEntry) :
    Audit (Option FoundPointer × TreeScan) := do
  if reads entry then
    let (object, contents) ← scan.contents.get entry.oid
    pure (FoundPointer.ofBlob? entry.path entry.oid object.data, { scan with contents })
  else pure (none, scan)

/-- Looks at an entry, unless the filter leaves it out or it was looked at before. -/
def examineIf (reads : TreeEntry → Bool) (attributes : Attributes) (scan : TreeScan)
    (entry : TreeEntry) : Audit TreeScan := do
  let pair := (entry.oid, entry.path)
  if !scan.filter.allows entry.path || scan.seen.contains pair then pure scan
  else
    let (found, scan) ← { scan with seen := pair :: scan.seen }.lookUpIf reads entry
    pure { scan with pending := scan.pending ++ verdict attributes entry found }

/-- Looks at the tree of a commit. -/
def scanCommitIf (reads : TreeEntry → Bool) (scan : TreeScan) (commit : Bytes) :
    Audit TreeScan := do
  Audit.trace (ascii "scanning tree of " ++ commit.beforeNul)
  let entries ← listTree scan.repository commit
  let (attributes, scan) ← scan.readAttributes entries
  entries.foldlM (examineIf reads attributes) scan

/-- Goes on until a tree has results, or to the end; used when nothing is pending. -/
def advanceIf (reads : TreeEntry → Bool) (scan : TreeScan) :
    List Bytes → Audit (Option (ScanItem × TreeScan))
  | [] => do
    Audit.checkInterrupt
    scan.close
    pure none
  | record :: rest => do
    Audit.checkInterrupt
    let scan ← scan.scanCommitIf reads record.trim
    match scan.pending with
    | [] => scan.advanceIf reads rest
    | item :: more =>
      pure (some (item,
        { scan with pending := more, listing := { scan.listing with records := rest } }))

/-- The next result and the scan after it, or nothing at the end. -/
def nextIf (reads : TreeEntry → Bool) (scan : TreeScan) : Audit (Option (ScanItem × TreeScan)) :=
  match scan.pending with
  | item :: more => pure (some (item, { scan with pending := more }))
  | [] => scan.advanceIf reads scan.listing.records

private theorem advanceIf_mayBePointer (scan : TreeScan) (records : List Bytes) :
    scan.advanceIf TreeEntry.mayBePointer records = scan.advance records := by
  induction records generalizing scan with
  | nil => rfl
  | cons record rest ih =>
      unfold advanceIf advance
      simp only [ih]
      rfl

/-- The scan looks at the entries that may be pointers. -/
theorem nextIf_mayBePointer : nextIf TreeEntry.mayBePointer = next := by
  funext scan
  have same := scan.advanceIf_mayBePointer scan.listing.records
  unfold nextIf next
  cases scan.pending with
  | nil => exact same
  | cons item more => rfl

end TreeScan

end StoreAudit
