import StoreAudit.Proofs.Git.Scanning
import StoreAudit.Scan.Feed

/-!
# Scans as steps of a scan

Whatever a feed is made of, asking it for its next item is a step of a scan.
-/

namespace StoreAudit

open Audit

private theorem RecordListing.scanning_start (repository : Repository) (arguments : List Bytes)
    (delimiter : UInt8) : Scanning (start repository arguments delimiter) :=
  .bind (repository.scanning_start arguments) fun _ => .pure _

namespace HistoryScan

private theorem scanning_start (repository : Repository) (start stop : Bytes) (filter : PathFilter)
    : Scanning (HistoryScan.start repository start stop filter) := by
  refine .bind (RecordListing.scanning_start _ _ _) fun _ => ?_
  refine .bind (Lookup.scanning_start _ _) fun _ => ?_
  exact .bind (Lookup.scanning_start _ _) fun _ => .pure _

private theorem scanning_close (scan : HistoryScan) : Scanning scan.close := by
  refine .bind scan.listing.child.scanning_wait fun _ => ?_
  exact .bind scan.headers.scanning_close fun _ => scan.contents.scanning_close

private theorem scanning_lookUp (scan : HistoryScan) (oid name : Bytes) :
    Scanning (scan.lookUp oid name) := by
  refine .bind (scan.headers.scanning_get oid) fun (header, headers) => ?_
  dsimp only
  split
  · exact .bind (scan.contents.scanning_get oid) fun _ => .pure _
  · exact .pure _

private theorem scanning_advance (scan : HistoryScan) (records : List Bytes) :
    Scanning (scan.advance records) := by
  induction records generalizing scan with
  | nil =>
      refine .bind scanning_checkInterrupt fun _ => ?_
      exact .bind scan.scanning_close fun _ => .pure _
  | cons record rest ih =>
      unfold advance
      refine .bind scanning_checkInterrupt fun _ => ?_
      cases candidate? scan.filter record with
      | none => exact ih scan
      | some candidate =>
          refine .bind (scan.scanning_lookUp _ _) fun (found, later) => ?_
          cases found with
          | none => exact ih later
          | some pointer => exact .pure _

end HistoryScan

namespace StagedScan

private theorem scanning_start (repository : Repository) (commit : Bytes) (filter : PathFilter) :
    Scanning (StagedScan.start repository commit filter) := by
  refine .bind (RecordListing.scanning_start _ _ _) fun _ => ?_
  exact .bind (Lookup.scanning_start _ _) fun _ => .pure _

private theorem scanning_close (scan : StagedScan) : Scanning scan.close :=
  .bind scan.listing.child.scanning_wait fun _ => scan.contents.scanning_close

private theorem scanning_lookUp (scan : StagedScan) (oid path : Bytes) :
    Scanning (scan.lookUp oid path) :=
  .bind (scan.contents.scanning_get oid) fun _ => .pure _

private theorem scanning_advance (scan : StagedScan) (records : List Bytes) :
    Scanning (scan.advance records) := by
  induction records using List.twoStepInduction generalizing scan with
  | nil =>
      refine .bind scanning_checkInterrupt fun _ => ?_
      exact .bind scan.scanning_close fun _ => .pure _
  | singleton record => exact .bind scanning_checkInterrupt fun _ => .throw _
  | cons_cons record path rest ih _ =>
      unfold advance
      refine .bind scanning_checkInterrupt fun _ => ?_
      cases StagedHeader.ofRecord? record with
      | none => exact .throw _
      | some header =>
          dsimp only
          split
          · refine .bind (scan.scanning_lookUp _ _) fun (found, later) => ?_
            cases found with
            | none => exact ih later
            | some pointer => exact .pure _
          · exact ih scan

end StagedScan

namespace TreeScan

private theorem scanning_start (repository : Repository) (start stop : Bytes) (filter : PathFilter)
    : Scanning (TreeScan.start repository start stop filter) := by
  refine .bind (RecordListing.scanning_start _ _ _) fun _ => ?_
  exact .bind (Lookup.scanning_start _ _) fun _ => .pure _

private theorem scanning_listTree (repository : Repository) (commit : Bytes) :
    Scanning (listTree repository commit) := by
  refine .bind (RecordListing.scanning_start _ _ _) fun listing => ?_
  refine .bind (.liftExcept _) fun _ => ?_
  exact .bind listing.child.scanning_wait fun _ => .pure _

private theorem scanning_readAttributes (scan : TreeScan) (entries : List TreeEntry) :
    Scanning (scan.readAttributes entries) :=
  .foldlM (fun (_, later) entry => .bind (later.contents.scanning_get entry.oid) fun _ => .pure _)
    _ _

private theorem scanning_lookUp (scan : TreeScan) (entry : TreeEntry) : Scanning (scan.lookUp entry)
    := by
  unfold lookUp
  split
  · exact .bind (scan.contents.scanning_get entry.oid) fun _ => .pure _
  · exact .pure _

private theorem scanning_examine (attributes : Attributes) (scan : TreeScan) (entry : TreeEntry) :
    Scanning (examine attributes scan entry) := by
  unfold examine
  dsimp only
  split
  · exact .pure _
  · exact .bind (scanning_lookUp _ entry) fun _ => .pure _

private theorem scanning_scanCommit (scan : TreeScan) (commit : Bytes) :
    Scanning (scan.scanCommit commit) := by
  refine .bind (.lift (heedless_trace _)) fun _ => ?_
  refine .bind (scanning_listTree _ _) fun entries => ?_
  refine .bind (scan.scanning_readAttributes entries) fun (attributes, later) => ?_
  exact .foldlM (fun scan entry => scanning_examine attributes scan entry) entries later

private theorem scanning_close (scan : TreeScan) : Scanning scan.close :=
  .bind scan.listing.child.scanning_wait fun _ => scan.contents.scanning_close

private theorem scanning_advance (scan : TreeScan) (records : List Bytes) :
    Scanning (scan.advance records) := by
  induction records generalizing scan with
  | nil =>
      refine .bind scanning_checkInterrupt fun _ => ?_
      exact .bind scan.scanning_close fun _ => .pure _
  | cons record rest ih =>
      unfold advance
      refine .bind scanning_checkInterrupt fun _ => ?_
      refine .bind (scan.scanning_scanCommit _) fun later => ?_
      cases later.pending with
      | nil => exact ih later
      | cons item more => exact .pure _

private theorem scanning_next (scan : TreeScan) : Scanning scan.next := by
  unfold next
  split
  · exact .pure _
  · exact scan.scanning_advance _

end TreeScan

namespace Section

/-- To begin a section is a step of a scan. -/
theorem scanning_begin (part : Section) : Scanning part.begin := by
  cases part with
  | history repository start stop filter => exact .map _ (HistoryScan.scanning_start _ _ _ _)
  | staged repository commit filter => exact .map _ (StagedScan.scanning_start _ _ _)
  | trees repository start stop filter => exact .map _ (TreeScan.scanning_start _ _ _ _)
  | historyScan _ | stagedScan _ | treeScan _ | listed _ _ => exact .pure _

private theorem scanning_pull (part : Section) : Scanning part.pull := by
  cases part with
  | historyScan scan => exact .bind (scan.scanning_advance _) fun _ => .pure _
  | stagedScan scan => exact .bind (scan.scanning_advance _) fun _ => .pure _
  | treeScan scan => exact .bind scan.scanning_next fun _ => .pure _
  | listed items failure =>
      cases items with
      | cons item rest => exact .pure _
      | nil =>
          cases failure with
          | some failure => exact .throw _
          | none => exact .pure _
  | history _ _ _ _ | staged _ _ _ | trees _ _ _ _ => exact .pure _

private theorem scanning_next (part : Section) : Scanning part.next :=
  .bind part.scanning_begin fun started => started.scanning_pull

end Section

/-- Asking a feed for its next item is a step of a scan. -/
theorem Feed.scanning_next (feed : Feed) : Scanning feed.next := by
  induction feed with
  | nil => exact .pure _
  | cons part rest ih =>
      refine .bind part.scanning_next fun found => ?_
      cases found with
      | none => exact ih
      | some delivered => exact .pure _

end StoreAudit
