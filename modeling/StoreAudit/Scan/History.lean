import StoreAudit.Scan.Records
import StoreAudit.PathFilter

/-!
# Pointers in history

The objects reachable from a commit range are listed with their names. Those whose names the filter
admits are looked up, first the header and then, if a pointer is possible, the content.
-/

namespace StoreAudit

/-- A listing of objects under way, with the co-processes that tell what they are. -/
structure HistoryScan where
  filter : PathFilter
  listing : RecordListing
  headers : Lookup
  contents : Lookup

namespace HistoryScan

/-- The object name and the path of a record that is to be looked up. -/
def candidate? (filter : PathFilter) (record : Bytes) : Option (Bytes × Bytes) :=
  match Bytes.splitFirst [Ascii.space] record with
  | some (oid, name) => if name.isEmpty || !filter.allows name then none else some (oid, name)
  | none => none

/-- Starts a scan of the objects of a range. -/
def start (repository : Repository) (start stop : Bytes) (filter : PathFilter) :
    Audit HistoryScan := do
  let listing ← RecordListing.start repository (historyArguments true start stop) Ascii.newline
  let headers ← Lookup.start repository .headers
  let contents ← Lookup.start repository .contents
  pure { filter, listing, headers, contents }

/-- Ends the processes of a scan that is through. -/
def close (scan : HistoryScan) : Audit Unit := do
  scan.listing.child.wait
  scan.headers.close
  scan.contents.close

/-- The pointer of one object, if it is one, and the scan after the look-ups. -/
def lookUp (scan : HistoryScan) (oid name : Bytes) : Audit (Option FoundPointer × HistoryScan) := do
  let (header, headers) ← scan.headers.get oid
  let scan := { scan with headers }
  if header.mayBePointer then
    let (object, contents) ← scan.contents.get oid
    pure (FoundPointer.ofBlob? name oid object.data, { scan with contents })
  else pure (none, scan)

/-- Goes on to the next pointer, or to the end. -/
def advance (scan : HistoryScan) : List Bytes → Audit (Option (ScanItem × HistoryScan))
  | [] => do
    Audit.checkInterrupt
    scan.close
    pure none
  | record :: rest => do
    Audit.checkInterrupt
    match candidate? scan.filter record with
    | none => scan.advance rest
    | some (oid, name) =>
      let (found, scan) ← scan.lookUp oid name
      match found with
      | none => scan.advance rest
      | some pointer =>
        pure (some (.pointer pointer,
          { scan with listing := { scan.listing with records := rest } }))

/-- The next pointer and the scan after it, or nothing at the end. -/
def next (scan : HistoryScan) : Audit (Option (ScanItem × HistoryScan)) :=
  scan.advance scan.listing.records

end HistoryScan

end StoreAudit
