import StoreAudit.Scan.History
import StoreAudit.Scan.Range
import StoreAudit.Scan.Staged
import StoreAudit.Scan.Trees

/-!
# Feeds

A feed delivers scan items one by one. It is made of sections that are drained one after the other;
a section starts its processes when its first item is asked for. The bound of a feed is at least the
number of items that it still has.
-/

namespace StoreAudit

/-- A part of a feed. -/
inductive Section where
  /-- The pointers reachable in a range. -/
  | history (repository : Repository) (start stop : Bytes) (filter : PathFilter)
  /-- The pointers staged on top of a commit. -/
  | staged (repository : Repository) (commit : Bytes) (filter : PathFilter)
  /-- What the trees of a range hold. -/
  | trees (repository : Repository) (start stop : Bytes) (filter : PathFilter)
  | historyScan (scan : HistoryScan)
  | stagedScan (scan : StagedScan)
  | treeScan (scan : TreeScan)
  /-- Given items, and the failure that follows them if there is one. -/
  | listed (items : List ScanItem) (failure : Option Failure)

namespace Section

/-- The section with its processes started. -/
def begin : Section → Audit Section
  | history repository start stop filter =>
    historyScan <$> HistoryScan.start repository start stop filter
  | staged repository commit filter => stagedScan <$> StagedScan.start repository commit filter
  | trees repository start stop filter => treeScan <$> TreeScan.start repository start stop filter
  | other => pure other

/-- The next item of a section that was started, and the section after it. -/
def pull : Section → Audit (Option (ScanItem × Section))
  | historyScan scan => do
    pure ((← scan.next).map fun (item, scan) => (item, historyScan scan))
  | stagedScan scan => do
    pure ((← scan.next).map fun (item, scan) => (item, stagedScan scan))
  | treeScan scan => do
    pure ((← scan.next).map fun (item, scan) => (item, treeScan scan))
  | listed (item :: rest) failure => pure (some (item, listed rest failure))
  | listed [] (some failure) => throw failure
  | listed [] none => pure none
  | _ => pure none

/-- The next item, and the section after it. -/
def next (part : Section) : Audit (Option (ScanItem × Section)) := do
  let started ← part.begin
  started.pull

/-- At least the number of items that the section still has. -/
def bound : Section → Nat
  | history repository start stop _ =>
    (repository.recordsOf (historyArguments true start stop) Ascii.newline).length
  | staged repository commit _ => (repository.recordsOf (StagedScan.arguments commit) 0).length
  | trees repository start stop _ =>
    TreeScan.boundOf repository
      (repository.recordsOf (historyArguments false start stop) Ascii.newline)
  | historyScan scan => scan.listing.records.length
  | stagedScan scan => scan.listing.records.length
  | treeScan scan =>
    scan.pending.length + TreeScan.boundOf scan.repository scan.listing.records
  | listed items _ => items.length

end Section

/-- Sections to be drained one after the other. -/
abbrev Feed := List Section

namespace Feed

/-- The next item, and the feed after it. -/
def next : Feed → Audit (Option (ScanItem × Feed))
  | [] => pure none
  | part :: rest => do
    match ← part.next with
    | some (item, part) => pure (some (item, part :: rest))
    | none => Feed.next rest

/-- At least the number of items that the feed still has. -/
def bound : Feed → Nat
  | [] => 0
  | part :: rest => part.bound + bound rest

/-- Visits the items in order, at most `count` of them. -/
def drain (visit : ScanItem → Audit Unit) : Nat → Feed → Audit Unit
  | 0, _ => pure ()
  | count + 1, feed => do
    match ← feed.next with
    | none => pure ()
    | some (item, rest) =>
      visit item
      drain visit count rest

/-- Visits every item in order. -/
def forEach (feed : Feed) (visit : ScanItem → Audit Unit) : Audit Unit :=
  drain visit (feed.bound + 1) feed

/-- A feed of given items that can fail after some of them. -/
def ofList (items : List ScanItem) (failAt : Option Nat) (failure : Failure) : Feed :=
  match failAt with
  | some count =>
    if count ≤ items.length then [.listed (items.take count) (some failure)]
    else [.listed items none]
  | none => [.listed items none]

end Feed

/-- The feeds of the two passes of a check. -/
structure ScanSource where
  objects : Feed
  pointers : Feed

namespace Repository

/-- The feeds for a range: pointers that the filter admits in history and, if it counts, among what
is staged; and everything in the trees. -/
def source (repository : Repository) (range : ScanRange) (filter : PathFilter) : ScanSource where
  objects :=
    .history repository range.start range.stop filter ::
      if range.useIndex then [.staged repository range.stop filter] else []
  pointers := [.trees repository range.start range.stop {}]

end Repository

end StoreAudit
