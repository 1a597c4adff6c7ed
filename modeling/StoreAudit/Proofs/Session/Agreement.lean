import StoreAudit.Proofs.Session.Records

/-!
# Files that agree but for records

Two runs that do the same in another order leave the same files and other records of it. The same
change does the same to files that agree (`Journal.Agree.remove`).
-/

namespace StoreAudit.Journal

/-- The files are the same at every place, but for what the open journal file holds. -/
structure Agree (journal : Journal) (first second : FileTree) : Prop where
  workDir : second.workDir = first.workDir
  entry : ∀ place, second.get? place = first.get? place ∨ journal.sink = .file place ∧
    (∃ data, first.get? place = some (.file data)) ∧ ∃ data, second.get? place = some (.file data)

/-- What became of the same entry in two ways is the same but for records. -/
theorem Extends.agree {journal : Journal} {place : Place} {before first second : Option Entry}
    (one : journal.Extends place before first) (two : journal.Extends place before second) :
    second = first ∨ journal.sink = .file place ∧
      (∃ data, first = some (.file data)) ∧ ∃ data, second = some (.file data) := by
  rcases one with rfl | ⟨sink, old, more, shape, rfl⟩
  · rcases two with same | ⟨sink, old, more, shape, rfl⟩
    · exact .inl same
    · exact .inr ⟨sink, ⟨old, shape⟩, old ++ more, rfl⟩
  · rcases two with rfl | ⟨-, other, last, -, rfl⟩
    · exact .inr ⟨sink, ⟨old ++ more, rfl⟩, old, shape⟩
    · exact .inr ⟨sink, ⟨old ++ more, rfl⟩, other ++ last, rfl⟩

namespace Agree

variable {journal : Journal} {first second third : FileTree}

/-- Files agree with themselves. -/
theorem refl (journal : Journal) (files : FileTree) : journal.Agree files files :=
  ⟨rfl, fun _ => .inl rfl⟩

/-- Agreement goes both ways. -/
theorem symm (agree : journal.Agree first second) : journal.Agree second first := by
  refine ⟨agree.workDir.symm, fun place => ?_⟩
  rcases agree.entry place with same | ⟨sink, before, after⟩
  · exact .inl same.symm
  · exact .inr ⟨sink, after, before⟩

/-- What agrees with what agrees, agrees. -/
theorem trans (before : journal.Agree first second) (after : journal.Agree second third) :
    journal.Agree first third := by
  refine ⟨after.workDir.trans before.workDir, fun place => ?_⟩
  rcases before.entry place with same | ⟨sink, there, middle⟩
  · rw [← same]
    exact after.entry place
  · rcases after.entry place with same | ⟨-, -, last⟩
    · exact .inr ⟨sink, there, same ▸ middle⟩
    · exact .inr ⟨sink, there, last⟩

private theorem of_extends (workDir : second.workDir = first.workDir)
    (entry : ∀ place, journal.Extends place (first.get? place) (second.get? place)) :
    journal.Agree first second := by
  refine ⟨workDir, fun place => ?_⟩
  rcases entry place with same | ⟨sink, old, more, before, after⟩
  · exact .inl same
  · exact .inr ⟨sink, ⟨old, before⟩, old ++ more, after⟩

/-- A record leaves files that agree. -/
theorem write (journal : Journal) (files : FileTree) (level : Int) (text : Bytes) :
    journal.Agree files (journal.write files level text) :=
  of_extends (journal.keptIn_write files level text).workDir
    (journal.extends_write files level text)

/-- Records leave files that agree. -/
theorem writeAll (journal : Journal) (files : FileTree) (events : List (Int × Bytes)) :
    journal.Agree files (journal.writeAll files events) := by
  induction events generalizing files with
  | nil => exact .refl journal files
  | cons event rest ih => exact (write journal files event.1 event.2).trans (ih _)

/-- An event in both is a record in both. -/
theorem log {one two : Session} (agree : journal.Agree one.files two.files)
    (oneJournal : one.journal = journal) (twoJournal : two.journal = journal) (level : Int)
    (line : Bytes) :
    journal.Agree (Audit.log level line one).2.files (Audit.log level line two).2.files := by
  change journal.Agree (one.journal.write one.files level (line ++ [Ascii.newline]))
    (two.journal.write two.files level (line ++ [Ascii.newline]))
  rw [oneJournal, twoJournal]
  exact ((write journal _ _ _).symm.trans agree).trans (write journal _ _ _)

/-- Without an open journal file, nothing differs. -/
theorem get?_eq (agree : journal.Agree first second) (noFile : ∀ place, journal.sink ≠ .file place)
    (place : Place) : second.get? place = first.get? place :=
  (agree.entry place).resolve_right fun differs => noFile place differs.1

/-- Files that agree have the same outline. -/
theorem sameOutline (agree : journal.Agree first second) : first.SameOutline second := by
  refine ⟨agree.workDir, fun place => ?_⟩
  rcases agree.entry place with same | ⟨-, ⟨old, before⟩, new, after⟩
  · rw [same]
  · rw [before, after]
    rfl

private theorem erase (agree : journal.Agree first second) {place : Place} (below : place ≠ []) :
    journal.Agree (first.erase place) (second.erase place) := by
  refine ⟨agree.workDir, fun other => ?_⟩
  by_cases same : other = place
  · rw [same, FileTree.get?_erase_self _ below, FileTree.get?_erase_self _ below]
    exact .inl rfl
  · rw [FileTree.get?_erase_of_ne _ same, FileTree.get?_erase_of_ne _ same]
    exact agree.entry other

/-- Removing a name is refused in both or happens in both. -/
theorem remove (agree : journal.Agree first second) (path : Bytes) :
    (second.perform (.remove path)).2 = (first.perform (.remove path)).2 ∧
      journal.Agree (first.perform (.remove path)).1 (second.perform (.remove path)).1 := by
  have alike := agree.sameOutline
  simp only [FileTree.perform, FileTree.remove, alike.spotOf_eq]
  cases first.spotOf path with
  | error errno => exact ⟨rfl, agree⟩
  | ok spot =>
      cases spot with
      | itself place => exact ⟨rfl, agree⟩
      | named above name =>
          simp only [FileTree.lookUp]
          by_cases long : name.length > FileTree.maxNameLength
          · simp only [long, if_true]
            exact ⟨rfl, agree⟩
          simp only [long, if_false]
          cases found : first.get? (above ++ [name]) with
          | none =>
              have still : second.get? (above ++ [name]) = none := by
                rcases alike.cases (above ++ [name]) with same | ⟨-, old, before⟩
                · rw [same, found]
                · cases found.symm.trans before
              rw [still]
              exact ⟨rfl, agree⟩
          | some entry =>
              obtain ⟨other, again, sameKind⟩ := alike.isDirectory_of_some found
              rw [again]
              dsimp only
              rw [sameKind]
              by_cases directory : entry.isDirectory = true
              · simp only [directory, if_true]
                exact ⟨rfl, agree⟩
              by_cases slash : path.beforeNul.endsWith [Ascii.slash] = true
              · simp only [directory, slash, if_true]
                exact ⟨rfl, agree⟩
              · simp only [directory, slash]
                have below : above ++ [name] ≠ [] := by simp
                exact ⟨rfl, agree.erase below⟩

end Agree

end StoreAudit.Journal
