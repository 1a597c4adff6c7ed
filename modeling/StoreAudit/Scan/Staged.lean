import StoreAudit.Scan.Records
import StoreAudit.PathFilter

/-!
# Staged pointers

What is staged differs from a commit in a list of entries, each given by a header record and a path
record. Entries that end up with an object are looked up.
-/

namespace StoreAudit

/-- The header of a staged entry. -/
structure StagedHeader where
  sourceMode : Bytes
  mode : Bytes
  sourceOid : Bytes
  oid : Bytes
  status : Bytes
  deriving DecidableEq, Repr

namespace StagedHeader

/-- The mode of a submodule. -/
def submoduleMode : Bytes := ascii "160000"

/-- Reads a header: five fields after a colon. -/
def ofRecord? (record : Bytes) : Option StagedHeader :=
  match Bytes.split Ascii.space record with
  | [sourceMode, mode, sourceOid, oid, status] =>
    if sourceMode.startsWith [Ascii.colon] then
      some { sourceMode := sourceMode.tail, mode, sourceOid, oid, status }
    else none
  | _ => none

/-- Whether the entry ends up with an object of its own. -/
def hasObject (header : StagedHeader) : Bool :=
  !(header.oid.all (· == Ascii.zero) || header.status = ascii "D" || header.mode = submoduleMode)

end StagedHeader

/-- A listing of staged entries under way. -/
structure StagedScan where
  filter : PathFilter
  listing : RecordListing
  contents : Lookup

namespace StagedScan

/-- The arguments that list what is staged on top of a commit. -/
def arguments (commit : Bytes) : List Bytes :=
  [ascii "diff-index", ascii "-z", ascii "--cached", ascii "--no-renames",
    ascii "--ignore-submodules", commit, ascii "--"]

/-- Starts a scan of what is staged. -/
def start (repository : Repository) (commit : Bytes) (filter : PathFilter) :
    Audit StagedScan := do
  let listing ← RecordListing.start repository (arguments commit) 0
  let contents ← Lookup.start repository .contents
  pure { filter, listing, contents }

/-- Ends the processes of a scan that is through. -/
def close (scan : StagedScan) : Audit Unit := do
  scan.listing.child.wait
  scan.contents.close

/-- The pointer of an object, if it is one, and the scan after the look-up. -/
def lookUp (scan : StagedScan) (oid path : Bytes) : Audit (Option FoundPointer × StagedScan) := do
  let (object, contents) ← scan.contents.get oid
  pure (if object.mayBePointer then FoundPointer.ofBlob? path oid object.data else none,
    { scan with contents })

/-- Goes on to the next pointer, or to the end. -/
def advance (scan : StagedScan) : List Bytes → Audit (Option (ScanItem × StagedScan))
  | [] => do
    Audit.checkInterrupt
    scan.close
    pure none
  | [_] => do
    Audit.checkInterrupt
    throw .truncatedIndex
  | record :: path :: rest => do
    Audit.checkInterrupt
    match StagedHeader.ofRecord? record with
    | none => throw (.unexpectedIndexHeader record)
    | some header =>
      if header.hasObject && scan.filter.allows path then
        let (found, scan) ← scan.lookUp header.oid path
        match found with
        | none => scan.advance rest
        | some pointer =>
          pure (some (.pointer pointer,
            { scan with listing := { scan.listing with records := rest } }))
      else scan.advance rest

/-- The next pointer and the scan after it, or nothing at the end. -/
def next (scan : StagedScan) : Audit (Option (ScanItem × StagedScan)) :=
  scan.advance scan.listing.records

end StagedScan

end StoreAudit
