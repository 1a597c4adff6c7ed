import StoreAudit.Proofs.Scan.History
import StoreAudit.Proofs.Scan.Trees

/-!
# Where history and trees agree

The scan of history takes the type and the size of an object from its header, the scan of trees
takes them from the listing of a tree. Where both listings name the same files, the two scans
deliver the same pointers (`Repository.pointers_agree`), and neither would deliver anything else if
it read every file.
-/

namespace StoreAudit

open Audit

/-- What git has under a name is a file. -/
def ObjectBase.IsFile (base : ObjectBase) (oid : Bytes) : Prop :=
  ∃ object, base.find? oid = some object ∧ object.type = ascii "blob"

instance (base : ObjectBase) (oid : Bytes) : Decidable (base.IsFile oid) :=
  inferInstanceAs (Decidable (∃ object ∈ base.find? oid, object.type = ascii "blob"))

private theorem ObjectBase.isFile_of_pointer {base : ObjectBase} {oid path : Bytes}
    {found : FoundPointer} (isPointer : base.pointer? oid path = some found) : base.IsFile oid := by
  obtain ⟨object, -, -, stored, blob, -⟩ := pointer?_eq_some_iff.mp isPointer
  exact ⟨object, stored, blob⟩

private theorem PathFilter.allows_empty (path : Bytes) : PathFilter.allows {} path = true := rfl

/-- A line that gives an object under a filter gives it under every wider one. -/
theorem ListsObject.mono {filter wider : PathFilter} {line oid name : Bytes}
    (lists : ListsObject filter line oid name) (admitted : wider.allows name = true) :
    ListsObject wider line oid name :=
  { lists with admitted := admitted }

instance (filter : PathFilter) (line oid name : Bytes) :
    Decidable (ListsObject filter line oid name) :=
  decidable_of_iff _ HistoryScan.candidate?_eq_some_iff

namespace Repository

variable {repository : Repository} {base : ObjectBase} {start stop : Bytes}

/-- The listing of the objects of a range names a file with its path. -/
def ListsFile (repository : Repository) (base : ObjectBase) (start stop : Bytes)
    (place : Bytes × Bytes) : Prop :=
  (∃ line ∈ HistoryScan.lines repository start stop, ListsObject {} line place.1 place.2) ∧
    base.IsFile place.1

instance (repository : Repository) (base : ObjectBase) (start stop : Bytes)
    (place : Bytes × Bytes) : Decidable (repository.ListsFile base start stop place) :=
  inferInstanceAs (Decidable (_ ∧ _))

/-- The listing of the tree of a commit names a file with its path. -/
def ShowsFile (repository : Repository) (commit : Bytes) (place : Bytes × Bytes) : Prop :=
  ∃ entry ∈ repository.treeEntries commit, entry.isBlob = true ∧ (entry.oid, entry.path) = place

instance (repository : Repository) (commit : Bytes) (place : Bytes × Bytes) :
    Decidable (repository.ShowsFile commit place) :=
  inferInstanceAs (Decidable (∃ entry ∈ _, _))

/-- The listing of the objects of a range names the same files as the trees of these commits. -/
def NamesFilesOf (repository : Repository) (base : ObjectBase) (start stop : Bytes)
    (commits : List Bytes) : Prop :=
  ∀ place, repository.ListsFile base start stop place ↔
    ∃ commit ∈ commits, repository.ShowsFile commit place

/-- Only what one of the listings names has to be looked for in the other. -/
theorem namesFilesOf_iff {commits : List Bytes} :
    repository.NamesFilesOf base start stop commits ↔
      (∀ place ∈ (HistoryScan.lines repository start stop).filterMap (HistoryScan.candidate? {}),
        base.IsFile place.1 → ∃ commit ∈ commits, repository.ShowsFile commit place) ∧
      ∀ commit ∈ commits, ∀ entry ∈ repository.treeEntries commit, entry.isBlob = true →
        repository.ListsFile base start stop (entry.oid, entry.path) := by
  constructor
  · intro same
    constructor
    · intro place listed isFile
      obtain ⟨line, member, counts⟩ := List.mem_filterMap.mp listed
      exact (same place).mp ⟨⟨line, member, HistoryScan.candidate?_eq_some_iff.mp counts⟩, isFile⟩
    · intro commit ofRange entry shown isBlob
      exact (same _).mpr ⟨commit, ofRange, entry, shown, isBlob, rfl⟩
  · rintro ⟨listed, shown⟩ place
    constructor
    · rintro ⟨⟨line, member, lists⟩, isFile⟩
      apply listed place _ isFile
      exact List.mem_filterMap.mpr ⟨line, member, HistoryScan.candidate?_eq_some_iff.mpr lists⟩
    · rintro ⟨commit, ofRange, entry, member, isBlob, rfl⟩
      exact shown commit ofRange entry member isBlob

instance (repository : Repository) (base : ObjectBase) (start stop : Bytes)
    (commits : List Bytes) : Decidable (repository.NamesFilesOf base start stop commits) :=
  decidable_of_iff _ namesFilesOf_iff.symm

/-- Git has one object under each name, its two listings of a range are of these objects, and all
commands end well. -/
structure Concordant (repository : Repository) (base : ObjectBase) (start stop : Bytes) : Prop where
  answered : HistoryScan.Answered repository base {} (HistoryScan.lines repository start stop)
  complete : HistoryScan.Complete base {} (HistoryScan.lines repository start stop)
  ends : HistoryScan.ending repository start stop = none
  trees : TreeScan.Consistent repository base start stop

variable {filter : PathFilter}

namespace Concordant

/-- Whatever is read besides the files that can be pointers, history gives the same. -/
theorem delivers_history (concordant : repository.Concordant base start stop)
    {reads : FoundObject → Bool} (fair : FoundObject.FairFor reads) :
    Delivers (HistoryScan.nextIf reads) none
      ((HistoryScan.lines repository start stop).filterMap (HistoryScan.item? base filter))
      (HistoryScan.start repository start stop filter >>= HistoryScan.nextIf reads) := by
  rw [← concordant.ends]
  apply HistoryScan.delivers_complete fair
  · intro line member oid name lists
    exact concordant.answered line member oid name (lists.mono (PathFilter.allows_empty name))
  · intro line member oid name lists
    exact concordant.complete line member oid name (lists.mono (PathFilter.allows_empty name))

private theorem holds_history (concordant : repository.Concordant base start stop) :
    Feed.Holds [.history repository start stop filter]
      ((HistoryScan.lines repository start stop).filterMap (HistoryScan.item? base filter))
      none := by
  apply Feed.holds_of_scan Section.historyScan rfl (fun _ => rfl) (fun _ => rfl)
  rw [← HistoryScan.nextIf_mayBePointer]
  exact concordant.delivers_history FoundObject.fairFor_mayBePointer

/-- A pointer that history gives is one that the trees show, and the other way round. -/
theorem pointer_mem_iff (concordant : repository.Concordant base start stop)
    (same : repository.NamesFilesOf base start stop (repository.commits start stop))
    (filter : PathFilter) (found : FoundPointer) :
    .pointer found ∈
        (HistoryScan.lines repository start stop).filterMap (HistoryScan.item? base filter) ↔
      .pointer found ∈
        TreeScan.itemsAfter repository base filter [] (repository.commits start stop) := by
  rw [HistoryScan.pointer_mem_iff, concordant.trees.pointer_mem_itemsAfter_iff]
  constructor
  · rintro ⟨line, member, oid, path, lists, isPointer⟩
    have listed : repository.ListsFile base start stop (oid, path) :=
      ⟨⟨line, member, lists.mono (PathFilter.allows_empty path)⟩,
        ObjectBase.isFile_of_pointer isPointer⟩
    obtain ⟨commit, ofRange, entry, shown, -, place⟩ := (same (oid, path)).mp listed
    obtain ⟨rfl, rfl⟩ := Prod.mk.inj place
    exact ⟨commit, ofRange, entry, shown, lists.admitted, isPointer⟩
  · rintro ⟨commit, ofRange, entry, shown, admitted, isPointer⟩
    have isBlob : entry.isBlob = true := by
      by_contra other
      have agrees := (concordant.trees.lists commit ofRange).agrees entry shown
      rw [agrees.pointer?_of_not_blob (by simpa using other)] at isPointer
      cases isPointer
    obtain ⟨⟨line, member, lists⟩, -⟩ :=
      (same (entry.oid, entry.path)).mpr ⟨commit, ofRange, entry, shown, isBlob, rfl⟩
    exact ⟨line, member, entry.oid, entry.path, lists.mono admitted, isPointer⟩

end Concordant

/-- **History and trees agree on what a pointer is.** Where the listing of the objects of a range
names the same files as the trees of its commits, both scans deliver the same pointers, with all
that they read as, whatever the filter is. The conditions on sizes only save reading: each scan
delivers the same items in the same order if it reads every file. -/
theorem pointers_agree (concordant : repository.Concordant base start stop)
    (same : repository.NamesFilesOf base start stop (repository.commits start stop))
    (filter : PathFilter) :
    ∃ listed shown, Feed.Holds [.history repository start stop filter] listed none ∧
      Feed.Holds [.trees repository start stop filter] shown none ∧
      (∀ found, .pointer found ∈ listed ↔ .pointer found ∈ shown) ∧
      (HistoryScan.nextIf FoundObject.mayBePointer = HistoryScan.next ∧
        Delivers (HistoryScan.nextIf FoundObject.isFile) none listed
          (HistoryScan.start repository start stop filter >>=
            HistoryScan.nextIf FoundObject.isFile)) ∧
      TreeScan.nextIf TreeEntry.mayBePointer = TreeScan.next ∧
        Delivers (TreeScan.nextIf TreeEntry.isBlob) none shown
          (TreeScan.start repository start stop filter >>=
            TreeScan.nextIf TreeEntry.isBlob) := by
  refine ⟨_, _, concordant.holds_history, TreeScan.holds_firsts concordant.trees,
    concordant.pointer_mem_iff same filter, ⟨HistoryScan.nextIf_mayBePointer, ?_⟩,
    TreeScan.nextIf_mayBePointer, ?_⟩
  · exact concordant.delivers_history FoundObject.fairFor_isFile
  · exact TreeScan.delivers_firsts TreeEntry.fairFor_isBlob concordant.trees

/-- A directory, and what can be in it. -/
def settledObjects : List (Bytes × StoredObject) :=
  (ascii "d1", { digest := ascii "d1", type := ascii "tree", content := ascii "a.bin" }) ::
    TreeScan.sampleObjects

def settledBase : ObjectBase := .ofList settledObjects (by decide +kernel)

/-- One commit with an attribute file, a file with other content and a pointer in a directory. -/
def settled : Repository where
  directory := []
  transcript :=
    { calls :=
        [{ arguments := historyArguments true [] (ascii "c1")
           output := ascii "c1\ne1 \nf1 .gitattributes\nb1 b.bin\nd1 d\na1 d/a.bin\n" },
          { arguments := historyArguments false [] (ascii "c1"), output := ascii "c1\n" },
          { arguments := TreeScan.arguments (ascii "c1")
            output := ascii "100644 blob f1      16\t.gitattributes" ++ 0 ::
              (ascii "100644 blob b1      10\tb.bin" ++ 0 ::
              (ascii "100644 blob a1     126\td/a.bin" ++ [0])) }]
      objects := settledObjects.map StoredObject.entry }

/-- A repository that is played from a list of objects is concordant if its listings are. -/
theorem concordant_ofList {objects : List (Bytes × StoredObject)}
    (objectsSame : repository.transcript.objects = objects.map StoredObject.entry)
    (onLine : ∀ named ∈ objects, Ascii.newline ∉ named.1)
    (complete : ∀ candidate ∈ (HistoryScan.lines repository start stop).filterMap
      (HistoryScan.candidate? {}), (ObjectBase.ofList objects onLine).find? candidate.1 ≠ none)
    (ends : HistoryScan.ending repository start stop = none)
    (trees : TreeScan.Consistent repository (.ofList objects onLine) start stop) :
    repository.Concordant (.ofList objects onLine) start stop where
  answered := fun _ _ oid _ _ mode => ObjectBase.lookup_ofList objectsSame onLine mode oid
  complete := HistoryScan.complete_iff.mpr complete
  ends := ends
  trees := trees

/-- A commit with a pointer in a directory. -/
theorem pointers_agree_of_one_commit :
    settled.Concordant settledBase [] (ascii "c1") ∧
      settled.NamesFilesOf settledBase [] (ascii "c1") (settled.commits [] (ascii "c1")) ∧
      ∃ listed shown, Feed.Holds [.history settled [] (ascii "c1") {}] listed none ∧
        Feed.Holds [.trees settled [] (ascii "c1") {}] shown none ∧
        .sample (ascii "d/a.bin") ∈ listed ∧ .sample (ascii "d/a.bin") ∈ shown := by
  have concordant : settled.Concordant settledBase [] (ascii "c1") := by
    apply concordant_ofList rfl <;> decide +kernel
  have same : settled.NamesFilesOf settledBase [] (ascii "c1")
      (settled.commits [] (ascii "c1")) := by
    decide +kernel
  obtain ⟨listed, shown, holds, holdsTrees, agree, -⟩ := pointers_agree concordant same {}
  have delivered : .sample (ascii "d/a.bin") ∈ shown := by
    rw [(holdsTrees.unique (TreeScan.holds_firsts concordant.trees)).1]
    decide +kernel
  exact ⟨concordant, same, listed, shown, holds, holdsTrees, (agree _).mpr delivered, delivered⟩

/-- A commit with a pointer, after one that had it at another path. The listing of its objects names
each object once. -/
def moved : Repository where
  directory := []
  transcript :=
    { calls :=
        [{ arguments := historyArguments true [] (ascii "c2")
           output := ascii "c2\nc1\ne2 \na1 a.bin\ne1 \n" },
          { arguments := historyArguments false [] (ascii "c2"), output := ascii "c2\nc1\n" },
          { arguments := TreeScan.arguments (ascii "c2")
            output := ascii "100644 blob a1     126\ta.bin" ++ [0] },
          { arguments := TreeScan.arguments (ascii "c1")
            output := ascii "100644 blob a1     126\told.bin" ++ [0] }]
      objects := settledObjects.map StoredObject.entry }

/-- It is not enough that the listing of the objects names the files in the tree of the commit
itself: the scan of trees goes through the commits before it too, and delivers a pointer that was
moved at both paths. -/
theorem moved_pointer_listed_once :
    moved.Concordant settledBase [] (ascii "c2") ∧
      moved.NamesFilesOf settledBase [] (ascii "c2") [ascii "c2"] ∧
      ∃ listed shown, Feed.Holds [.history moved [] (ascii "c2") {}] listed none ∧
        Feed.Holds [.trees moved [] (ascii "c2") {}] shown none ∧
        .sample (ascii "old.bin") ∈ shown ∧ .sample (ascii "old.bin") ∉ listed := by
  have concordant : moved.Concordant settledBase [] (ascii "c2") := by
    apply concordant_ofList rfl <;> decide +kernel
  refine ⟨concordant, ?_, _, _, concordant.holds_history,
    TreeScan.holds_firsts concordant.trees, ?_, ?_⟩ <;> decide +kernel

end Repository

end StoreAudit
