import StoreAudit.Proofs.Pointer.RoundTrip
import StoreAudit.Proofs.Scan.Interruption

/-!
# Delivered pointers are well formed

Whatever the blobs, the paths and the listings of a repository are, a pointer that a scan delivers
names an object by 64 lowercase digits and gives it a size that is not negative
(`Section.Reached.wellFormed_next`): it was read from a blob, and reading refuses anything else.
-/

namespace StoreAudit

open Audit

/-- The pointer names an object as objects are named, and gives it a size. -/
structure FoundPointer.WellFormed (pointer : FoundPointer) : Prop where
  oid : Digest.isText pointer.oid = true
  size : 0 ≤ pointer.size

private theorem FoundPointer.wellFormed_of_ofBlob? {name blobOid data : Bytes}
    {pointer : FoundPointer}
    (read : ofBlob? name blobOid data = some pointer) : pointer.WellFormed := by
  obtain ⟨⟨decoded, canonical⟩, decodes, rfl⟩ := Option.map_eq_some_iff.mp read
  have wellFormed := Pointer.wellFormed_of_decode? decodes
  exact ⟨wellFormed.oid, wellFormed.size⟩

/-- The item is no pointer, or a well-formed one. -/
def ScanItem.WellFormed : ScanItem → Prop
  | .pointer found => found.WellFormed
  | .misplaced _ _ => True

/-- What is delivered, if anything, is well formed, and what is left is as said. -/
def DeliversWellFormed {σ : Type} (left : σ → Prop) : Option (ScanItem × σ) → Prop
  | none => True
  | some (item, later) => item.WellFormed ∧ left later

private theorem DeliversWellFormed.map {σ τ : Type} {left : σ → Prop} {other : τ → Prop}
    {found : Option (ScanItem × σ)} (delivers : DeliversWellFormed left found) (change : σ → τ)
    (implies : ∀ later, left later → other (change later)) :
    DeliversWellFormed other (found.map fun (item, later) => (item, change later)) := by
  cases found with
  | none => trivial
  | some delivered => exact ⟨delivers.1, implies _ delivers.2⟩

namespace HistoryScan

private theorem wellFormed_lookUp (scan : HistoryScan) (oid name : Bytes) :
    Yields (scan.lookUp oid name) fun result =>
      ∀ pointer, result.1 = some pointer → pointer.WellFormed := by
  refine (yields_any _).bind fun (header, headers) _ => ?_
  dsimp only
  split
  · exact (yields_any _).bind fun _ _ =>
      yields_pure fun _ read => FoundPointer.wellFormed_of_ofBlob? read
  · exact yields_pure fun _ impossible => nomatch impossible

private theorem wellFormed_advance (scan : HistoryScan) (records : List Bytes) :
    Yields (scan.advance records) (DeliversWellFormed fun _ => True) := by
  induction records generalizing scan with
  | nil => exact (yields_any _).bind fun _ _ => (yields_any _).bind fun _ _ => yields_pure trivial
  | cons record rest ih =>
      unfold advance
      refine (yields_any _).bind fun _ _ => ?_
      cases candidate? scan.filter record with
      | none => exact ih scan
      | some candidate =>
          refine (scan.wellFormed_lookUp _ _).bind fun result wellFormed => ?_
          rcases result with ⟨_ | pointer, later⟩
          · exact ih later
          · exact yields_pure ⟨wellFormed pointer rfl, trivial⟩

end HistoryScan

namespace StagedScan

private theorem wellFormed_lookUp (scan : StagedScan) (oid path : Bytes) :
    Yields (scan.lookUp oid path) fun result =>
      ∀ pointer, result.1 = some pointer → pointer.WellFormed := by
  refine (yields_any _).bind fun (object, contents) _ => yields_pure fun pointer read => ?_
  dsimp only at read
  split at read
  · exact FoundPointer.wellFormed_of_ofBlob? read
  · cases read

private theorem wellFormed_advance (scan : StagedScan) (records : List Bytes) :
    Yields (scan.advance records) (DeliversWellFormed fun _ => True) := by
  induction records using List.twoStepInduction generalizing scan with
  | nil => exact (yields_any _).bind fun _ _ => (yields_any _).bind fun _ _ => yields_pure trivial
  | singleton record => exact (yields_any _).bind fun _ _ => yields_throw _ _
  | cons_cons record path rest ih _ =>
      unfold advance
      refine (yields_any _).bind fun _ _ => ?_
      cases StagedHeader.ofRecord? record with
      | none => exact yields_throw _ _
      | some header =>
          dsimp only
          split
          · refine (scan.wellFormed_lookUp _ _).bind fun result wellFormed => ?_
            rcases result with ⟨_ | pointer, later⟩
            · exact ih later
            · exact yields_pure ⟨wellFormed pointer rfl, trivial⟩
          · exact ih scan

end StagedScan

namespace TreeScan

/-- What is held back is well formed. -/
def WellFormed (scan : TreeScan) : Prop := ∀ item ∈ scan.pending, item.WellFormed

private theorem wellFormed_lookUp (scan : TreeScan) (entry : TreeEntry) :
    Yields (scan.lookUp entry) fun result =>
      ∀ pointer, result.1 = some pointer → pointer.WellFormed := by
  unfold lookUp
  split
  · exact (yields_any _).bind fun _ _ =>
      yields_pure fun _ read => FoundPointer.wellFormed_of_ofBlob? read
  · exact yields_pure fun _ impossible => nomatch impossible

private theorem wellFormed_verdict (attributes : Attributes) (entry : TreeEntry)
    {found : Option FoundPointer}
    (wellFormed : ∀ pointer, found = some pointer → pointer.WellFormed) :
    ∀ item ∈ verdict attributes entry found, item.WellFormed := by
  intro item member
  cases found with
  | some pointer =>
      obtain rfl := List.mem_singleton.mp member
      exact wellFormed pointer rfl
  | none =>
      simp only [verdict] at member
      split at member
      · obtain rfl := List.mem_singleton.mp member
        trivial
      · cases member

private theorem wellFormed_examine (attributes : Attributes) {scan : TreeScan}
    (wellFormed : scan.WellFormed) (entry : TreeEntry) :
    Yields (examine attributes scan entry) WellFormed := by
  unfold examine
  dsimp only
  split
  · exact yields_pure wellFormed
  · intro session later after succeeded
    obtain ⟨⟨found, middle⟩, between, looked, result⟩ := bind_eq_ok succeeded
    cases result
    have fine := wellFormed_lookUp _ entry _ _ _ looked
    obtain ⟨-, same⟩ := sameResults_lookUp _ entry _ _ _ looked
    intro item member
    rcases List.mem_append.mp member with before | now
    · exact wellFormed item (same ▸ before)
    · exact wellFormed_verdict attributes entry fine item now

private theorem wellFormed_scanCommit {scan : TreeScan} (wellFormed : scan.WellFormed)
    (commit : Bytes) : Yields (scan.scanCommit commit) WellFormed := by
  refine (yields_any _).bind fun _ _ => (yields_any _).bind fun entries _ => ?_
  refine (scan.sameResults_readAttributes entries).bind fun (attributes, started) same => ?_
  refine .foldlM (fun _ (later : TreeScan) => later.WellFormed)
    (fun entry _ _ fine => wellFormed_examine attributes fine entry) ?_
  rw [WellFormed, same.2]
  exact wellFormed

private theorem wellFormed_advance {scan : TreeScan} (wellFormed : scan.WellFormed)
    (records : List Bytes) : Yields (scan.advance records) (DeliversWellFormed WellFormed) := by
  induction records generalizing scan with
  | nil => exact (yields_any _).bind fun _ _ => (yields_any _).bind fun _ _ => yields_pure trivial
  | cons record rest ih =>
      unfold advance
      refine (yields_any _).bind fun _ _ => ?_
      refine (wellFormed_scanCommit wellFormed _).bind fun later fine => ?_
      cases pending : later.pending with
      | nil => exact ih fine
      | cons item more =>
          rw [WellFormed, pending] at fine
          exact yields_pure (List.forall_mem_cons.mp fine)

private theorem wellFormed_next {scan : TreeScan} (wellFormed : scan.WellFormed) :
    Yields scan.next (DeliversWellFormed WellFormed) := by
  unfold next
  split
  · rename_i item more pending
    rw [WellFormed, pending] at wellFormed
    exact yields_pure (List.forall_mem_cons.mp wellFormed)
  · exact wellFormed_advance wellFormed _

end TreeScan

namespace Section

/-- What the section holds back is well formed. -/
def WellFormed (part : Section) : Prop := ∀ item ∈ part.heldBack, item.WellFormed

private theorem wellFormed_of_nothing_heldBack {part : Section} (nothing : part.heldBack = []) :
    part.WellFormed := by
  rw [WellFormed, nothing]
  exact fun _ impossible => nomatch impossible

private theorem wellFormed_pull {part : Section} (wellFormed : part.WellFormed) :
    Yields part.pull (DeliversWellFormed WellFormed) := by
  cases part with
  | historyScan scan =>
      exact (scan.wellFormed_advance _).bind fun _ fine =>
        yields_pure (fine.map historyScan fun _ _ => wellFormed_of_nothing_heldBack rfl)
  | stagedScan scan =>
      exact (scan.wellFormed_advance _).bind fun _ fine =>
        yields_pure (fine.map stagedScan fun _ _ => wellFormed_of_nothing_heldBack rfl)
  | treeScan scan =>
      exact (TreeScan.wellFormed_next wellFormed).bind fun _ fine =>
        yields_pure (fine.map treeScan fun _ => id)
  | listed items failure =>
      cases items with
      | cons item rest => exact yields_pure (List.forall_mem_cons.mp wellFormed)
      | nil =>
          cases failure with
          | some failure => exact yields_throw _ _
          | none => exact yields_pure trivial
  | history _ _ _ _ | staged _ _ _ | trees _ _ _ _ => exact yields_pure trivial

private theorem wellFormed_next {part : Section} (wellFormed : part.WellFormed) :
    Yields part.next (DeliversWellFormed WellFormed) := by
  refine part.heldBack_begin.bind fun started same => wellFormed_pull ?_
  rw [WellFormed, same]
  exact wellFormed

/-- The sections that asking a repository for items can lead to, whatever else happens to the
session between two calls. -/
inductive Reached : Section → Prop
  | history {repository : Repository} {start stop : Bytes} {filter : PathFilter} :
      Reached (.history repository start stop filter)
  | staged {repository : Repository} {commit : Bytes} {filter : PathFilter} :
      Reached (.staged repository commit filter)
  | trees {repository : Repository} {start stop : Bytes} {filter : PathFilter} :
      Reached (.trees repository start stop filter)
  | next {part later : Section} {item : ScanItem} {session after : Session} : Reached part →
      part.next session = (.ok (some (item, later)), after) → Reached later

private theorem Reached.wellFormed {part : Section} (reached : Reached part) : part.WellFormed := by
  induction reached with
  | history => exact wellFormed_of_nothing_heldBack rfl
  | staged => exact wellFormed_of_nothing_heldBack rfl
  | trees => exact wellFormed_of_nothing_heldBack rfl
  | next reached delivered ih => exact (wellFormed_next ih _ _ _ delivered).2

/-- However a scan of a repository has gone so far, what it delivers next is well formed. -/
theorem Reached.wellFormed_next {part later : Section} {item : ScanItem} {session after : Session}
    (reached : Reached part) (delivered : part.next session = (.ok (some (item, later)), after)) :
    item.WellFormed :=
  (Section.wellFormed_next reached.wellFormed _ _ _ delivered).1

end Section

end StoreAudit
