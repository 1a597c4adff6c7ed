import StoreAudit.Proofs.Check.Visits

/-!
# Judgements that no record changes

The only file that a check writes to is an open journal file. The object of a pointer that is not
that file looks the same throughout a check (`Store.judge_of_sees`), so it does not matter when it
is looked at. Whether a check of an object fails never depends on records.
-/

namespace StoreAudit

namespace FileTree

/-- A path names the same in two trees of one outline, or a file that holds something else. -/
theorem SameOutline.entryOf_cases {tree later : FileTree} (alike : tree.SameOutline later)
    (path : Bytes) :
    later.entryOf path = tree.entryOf path ∨ ∃ place old new,
      tree.entryOf path = .ok (place, .file old) ∧ later.entryOf path = .ok (place, .file new) ∧
        later.get? place ≠ tree.get? place := by
  cases refused : refusal? path.beforeNul with
  | some errno => exact .inl (by simp only [entryOf, refused])
  | none =>
      cases walked :
          tree.walk true maxLinks (origin tree.workDir path.beforeNul) (steps path.beforeNul) with
      | error errno =>
          exact .inl (by simp only [entryOf, refused, alike.workDir, alike.walk_eq, walked])
      | ok spot =>
          by_cases same : later.get? spot.place = tree.get? spot.place
          · exact .inl (by simp only [entryOf, refused, alike.workDir, alike.walk_eq, walked, same])
          · obtain ⟨⟨new, after⟩, old, before⟩ := (alike.cases spot.place).resolve_left same
            refine .inr ⟨spot.place, old, new, ?_, ?_, same⟩
            · simp only [entryOf, refused, walked, before]
            · simp only [entryOf, refused, alike.workDir, alike.walk_eq, walked, after]

end FileTree

namespace Journal

/-- Records change contents of files only. -/
theorem sameOutline_writeAll (journal : Journal) (files : FileTree) (events : List (Int × Bytes)) :
    files.SameOutline (journal.writeAll files events) :=
  (journal.keptIn_writeAll files events).sameOutline fun _ =>
    journal.get?_writeAll_eq_none.mpr

/-- Records append to the open journal file and change nothing else. -/
theorem extends_writeAll (journal : Journal) (files : FileTree) (events : List (Int × Bytes))
    (place : Place) :
    journal.Extends place (files.get? place) ((journal.writeAll files events).get? place) := by
  induction events generalizing files with
  | nil => exact .inl rfl
  | cons event rest ih =>
      exact (journal.extends_write files event.1 event.2 place).trans (ih _)

end Journal

/-- A file is read to its end. -/
theorem FoundPointer.problemAt?_of_file (pointer : FoundPointer) {files : FileTree} {path : Bytes}
    {place : Place} {data : Bytes} (there : files.entryOf path = .ok (place, .file data)) :
    ∃ found, pointer.problemAt? files path = .ok found := by
  simp only [problemAt?, problemOf?, FileTree.openForReading, there, FileTree.reading,
    Digest.ofReading]
  split <;> exact ⟨_, rfl⟩

namespace Store

variable {store : Store}

/-- No object of the items is the open journal file. -/
def AvoidsJournal (store : Store) (session : Session) (items : List ScanItem) : Prop :=
  ∀ pointer path place entry, .pointer pointer ∈ items →
    store.objectPath pointer.oid = .ok path →
    session.files.entryOf path = .ok (place, entry) → session.journal.sink ≠ .file place

/-- Without an open journal file no object is one. -/
theorem avoidsJournal_of_noFile {session : Session}
    (noFile : ∀ place, session.journal.sink ≠ .file place) (items : List ScanItem) :
    store.AvoidsJournal session items :=
  fun _ _ place _ _ _ _ => noFile place

/-- Records change the judgement of an item only if its object is the journal file, which can be
read before and after. -/
theorem judge_cases_of_sees (store : Store) {session : Session} {files : FileTree}
    (sees : session.Sees files) (item : ScanItem) :
    store.judge files item = store.judge session.files item ∨
      ∃ pointer path place entry, item = .pointer pointer ∧
        store.objectPath pointer.oid = .ok path ∧
        session.files.entryOf path = .ok (place, entry) ∧ session.journal.sink = .file place ∧
        (∃ found, store.judge session.files item = .ok found) ∧
        ∃ found, store.judge files item = .ok found := by
  obtain ⟨events, rfl⟩ := sees
  cases item with
  | misplaced path treeOid => exact .inl rfl
  | pointer pointer =>
      rw [judge_pointer, judge_pointer]
      cases named : store.objectPath pointer.oid with
      | error failure => exact .inl rfl
      | ok path =>
          rcases (session.journal.sameOutline_writeAll session.files events).entryOf_cases path with
            same | ⟨place, old, new, before, after, differs⟩
          · refine .inl ?_
            simp only [FoundPointer.problemAt?, FileTree.openForReading, same]
          · have sink :=
              ((session.journal.extends_writeAll session.files events place).resolve_left differs).1
            exact .inr ⟨pointer, path, place, _, rfl, named, before, sink,
              pointer.problemAt?_of_file before, pointer.problemAt?_of_file after⟩

/-- Records leave the judgement of an item as it is, unless its object is the journal file. -/
theorem judge_of_sees {session : Session} {files : FileTree} {items : List ScanItem}
    (avoids : store.AvoidsJournal session items) (sees : session.Sees files) {item : ScanItem}
    (member : item ∈ items) : store.judge files item = store.judge session.files item := by
  rcases store.judge_cases_of_sees sees item with
    same | ⟨pointer, path, place, entry, rfl, named, found, sink, -⟩
  · exact same
  · exact absurd sink (avoids pointer path place entry member named found)

/-- Records neither make the check of an item fail nor keep it from failing. -/
theorem judge_error_iff_of_sees {session : Session} {files : FileTree} (sees : session.Sees files)
    {item : ScanItem} {failure : Failure} :
    store.judge files item = .error failure ↔ store.judge session.files item = .error failure := by
  rcases store.judge_cases_of_sees sees item with
    same | ⟨-, -, -, -, -, -, -, -, ⟨found, before⟩, other, after⟩
  · rw [same]
  · rw [before, after]
    exact ⟨nofun, nofun⟩

/-- Whether a judgement fails does not depend on the records made meanwhile. -/
theorem judge_ok_iff_of_sees {session : Session} {files : FileTree} (sees : session.Sees files)
    {item : ScanItem} :
    (∃ found, store.judge files item = .ok found) ↔
      ∃ found, store.judge session.files item = .ok found := by
  rcases store.judge_cases_of_sees sees item with
    same | ⟨-, -, -, -, -, -, -, -, before, after⟩
  · rw [same]
  · exact iff_of_true after before

/-- A judgement fails with a failure that callers can tell by its kind. -/
theorem classify_of_judge {files : FileTree} {item : ScanItem} {failure : Failure}
    (judged : store.judge files item = .error failure) : Pool.classify failure = failure := by
  cases item with
  | misplaced path treeOid =>
      cases judged
      rfl
  | pointer pointer =>
      rw [judge_pointer] at judged
      unfold objectPath at judged
      split at judged
      · rename_i named
        split at named
        · cases named
        · cases named
          cases judged
          rfl
      · unfold FoundPointer.problemAt? FoundPointer.problemOf? at judged
        split at judged
        · split at judged <;> cases judged
        · split at judged
          · cases judged
            rfl
          · split at judged <;> cases judged

/-- What is found wrong with an item is about its object. -/
theorem finding_of_judge {files : FileTree} {item : ScanItem} {finding : Finding}
    (judged : store.judge files item = .ok (some finding)) :
    finding.isObjectFinding = true ∧ Digest.isText finding.oid = true := by
  cases item with
  | misplaced path treeOid => cases judged
  | pointer pointer =>
      rw [judge_pointer] at judged
      unfold objectPath at judged
      by_cases valid : Digest.isText pointer.oid = true
      · rw [if_pos valid] at judged
        unfold FoundPointer.problemAt? FoundPointer.problemOf? at judged
        dsimp only at judged
        split at judged
        · split at judged
          · cases judged
          · cases judged
            exact ⟨rfl, valid⟩
        · split at judged
          · cases judged
          · split at judged
            · cases judged
            · cases judged
              exact ⟨rfl, valid⟩
      · rw [if_neg valid] at judged
        cases judged

end Store

end StoreAudit
