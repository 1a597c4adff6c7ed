import StoreAudit.Scan.Records
import StoreAudit.PathFilter
import StoreAudit.Attributes
import StoreAudit.Text.PathName

/-!
# Pointers in trees

The tree of every commit of a range is listed. Each pair of an object and a path is looked at once:
it is a pointer, or it is fine, or the attribute files of the tree say that it should have been a
pointer.
-/

namespace StoreAudit

/-- An entry of a tree listing; the size is -1 if the listing gives none. -/
structure TreeEntry where
  mode : Bytes
  type : Bytes
  oid : Bytes
  size : Int64
  path : Bytes
  deriving DecidableEq

namespace TreeEntry

/-- The size of an entry without one. -/
def noSize : Int64 := -1

/-- Reads a record: four fields with blanks between them, a tab and the path. -/
def ofRecord? (record : Bytes) : Option TreeEntry :=
  match Bytes.splitFirst [Ascii.tab] record with
  | some (fields, path) =>
    match (Bytes.split Ascii.space fields).filter fun field => !field.isEmpty with
    | [mode, type, oid, size] =>
      let size := ((Decimal.toWord? size).map UInt64.toInt64).getD noSize
      some { mode, type, oid, path, size }
    | _ => none
  | none => none

/-- Whether the entry is a file. -/
def isBlob (entry : TreeEntry) : Bool := entry.type = ascii "blob"

/-- Whether the entry is an attribute file. -/
def isAttributeFile (entry : TreeEntry) : Bool :=
  entry.isBlob && PathName.base entry.path = ascii ".gitattributes"

/-- Whether the size allows the entry to be a pointer. -/
def mayBePointer (entry : TreeEntry) : Bool :=
  entry.isBlob && 0 < entry.size && entry.size < Int64.ofNat Pointer.maxSize

/-- Whether the entry is an empty file, which never becomes a pointer. -/
def isEmptyFile (entry : TreeEntry) : Bool := entry.isBlob && entry.size = 0

end TreeEntry

/-- A listing of commits under way. -/
structure TreeScan where
  repository : Repository
  filter : PathFilter
  listing : RecordListing
  contents : Lookup
  /-- What was found in the trees listed so far and not delivered yet. -/
  pending : List ScanItem := []
  /-- The pairs of object and path that were looked at. -/
  seen : List (Bytes × Bytes) := []

namespace TreeScan

/-- The arguments that list the tree of a commit. -/
def arguments (commit : Bytes) : List Bytes :=
  [ascii "ls-tree", ascii "-r", ascii "-l", ascii "-z", ascii "--full-tree", commit]

/-- Starts a scan of the trees of a range. -/
def start (repository : Repository) (start stop : Bytes) (filter : PathFilter) :
    Audit TreeScan := do
  let listing ← RecordListing.start repository (historyArguments false start stop) Ascii.newline
  let contents ← Lookup.start repository .contents
  pure { repository, filter, listing, contents }

/-- Reads the records of a listing; the first that has another shape is a failure. -/
def parseEntries (records : List Bytes) : Except Failure (List TreeEntry) :=
  records.mapM fun record =>
    match TreeEntry.ofRecord? record with
    | some entry => .ok entry
    | none => .error (.unexpectedTreeRecord record)

/-- The entries of the tree of a commit. -/
def listTree (repository : Repository) (commit : Bytes) : Audit (List TreeEntry) := do
  let listing ← RecordListing.start repository (arguments commit) 0
  let entries ← parseEntries listing.records
  listing.child.wait
  pure entries

/-- The attributes that the attribute files among the entries give. -/
def readAttributes (scan : TreeScan) (entries : List TreeEntry) : Audit (Attributes × TreeScan) :=
  (entries.filter TreeEntry.isAttributeFile).foldlM (fun (attributes, scan) entry => do
    let (object, contents) ← scan.contents.get entry.oid
    pure (attributes.addFile (PathName.directory entry.path) object.data, { scan with contents }))
    ({}, scan)

/-- The pointer that an entry is, if it is one. -/
def lookUp (scan : TreeScan) (entry : TreeEntry) : Audit (Option FoundPointer × TreeScan) := do
  if entry.mayBePointer then
    let (object, contents) ← scan.contents.get entry.oid
    pure (FoundPointer.ofBlob? entry.path entry.oid object.data, { scan with contents })
  else pure (none, scan)

/-- What an entry adds to the results, once it is known whether it is a pointer. -/
def verdict (attributes : Attributes) (entry : TreeEntry) : Option FoundPointer → List ScanItem
  | some pointer => [.pointer pointer]
  | none =>
    if !entry.isEmptyFile && attributes.isTracked entry.path then
      [.misplaced entry.path entry.oid]
    else []

/-- Looks at an entry, unless the filter leaves it out or it was looked at before. -/
def examine (attributes : Attributes) (scan : TreeScan) (entry : TreeEntry) : Audit TreeScan := do
  let pair := (entry.oid, entry.path)
  if !scan.filter.allows entry.path || scan.seen.contains pair then pure scan
  else
    let (found, scan) ← { scan with seen := pair :: scan.seen }.lookUp entry
    pure { scan with pending := scan.pending ++ verdict attributes entry found }

/-- Looks at the tree of a commit. -/
def scanCommit (scan : TreeScan) (commit : Bytes) : Audit TreeScan := do
  Audit.trace (ascii "scanning tree of " ++ commit.beforeNul)
  let entries ← listTree scan.repository commit
  let (attributes, scan) ← scan.readAttributes entries
  entries.foldlM (examine attributes) scan

/-- Ends the processes of a scan that is through. -/
def close (scan : TreeScan) : Audit Unit := do
  scan.listing.child.wait
  scan.contents.close

/-- Goes on until a tree has results, or to the end; used when nothing is pending. -/
def advance (scan : TreeScan) : List Bytes → Audit (Option (ScanItem × TreeScan))
  | [] => do
    Audit.checkInterrupt
    scan.close
    pure none
  | record :: rest => do
    Audit.checkInterrupt
    let scan ← scan.scanCommit record.trim
    match scan.pending with
    | [] => scan.advance rest
    | item :: more =>
      pure (some (item,
        { scan with pending := more, listing := { scan.listing with records := rest } }))

/-- The next result and the scan after it, or nothing at the end. -/
def next (scan : TreeScan) : Audit (Option (ScanItem × TreeScan)) :=
  match scan.pending with
  | item :: more => pure (some (item, { scan with pending := more }))
  | [] => scan.advance scan.listing.records

/-- An upper bound for the number of results that the trees of commits can have. -/
def boundOf (repository : Repository) : List Bytes → Nat
  | [] => 0
  | commit :: rest =>
    (repository.recordsOf (arguments commit.trim) 0).length + boundOf repository rest

end TreeScan

end StoreAudit
