import StoreAudit.Proofs.Check.Confinement
import StoreAudit.Proofs.Digest.Stream

/-!
# What a look at an object decides

Opening a file fails or gives something to read, and reading it ends or fails. What is said of an
object depends on that and on what its pointer says, in a table of four lines
(`FoundPointer.Decides`): nothing, a finding with the reason of the failed opening, a finding that
the content has another name, or a failure. The table holds however files are opened, so it covers
files that may not be opened and files that cannot be read to their end
(`Store.checkObject_decides`). The look leaves the files as they are but for the record that tracing
makes of it.
-/

namespace StoreAudit

namespace FoundPointer

/-- What is to be said of the object of a pointer after what came of opening its file. -/
structure Decides (pointer : FoundPointer) (path : Bytes) (opened : Except Errno (Reading Errno))
    (outcome : Except Failure (Option Finding)) : Prop where
  /-- Nothing, if the content has the name or if an empty content has no file. -/
  fine : outcome = .ok none ↔
    (∃ reading, opened = .ok reading ∧ reading.failure = none ∧
      Digest.nameOf reading.pieces.flatten = pointer.oid) ∨
    (opened = .error .noEntry ∧ pointer.size = 0)
  /-- A finding, if the file cannot be opened for another reason or lacks a content, or if what was
  read to its end has another name. -/
  finds (finding : Finding) : outcome = .ok (some finding) ↔
    (∃ errno, opened = .error errno ∧ ¬ (errno = .noEntry ∧ pointer.size = 0) ∧
      finding = .openError pointer.name pointer.oid errno.text) ∨
    (∃ reading, opened = .ok reading ∧ reading.failure = none ∧
      Digest.nameOf reading.pieces.flatten ≠ pointer.oid ∧
      finding = .corruptObject pointer.name pointer.oid)
  /-- A failure, if the file was opened and cannot be read to its end. -/
  fails (failure : Failure) : outcome = .error failure ↔
    ∃ reading errno, opened = .ok reading ∧ reading.failure = some errno ∧
      failure = .inCall (ascii "read(" ++ path ++ ascii ")") errno

private theorem problemOf?_of_refused (pointer : FoundPointer) (path : Bytes) {errno : Errno}
    (wanted : ¬ (errno = .noEntry ∧ pointer.size = 0)) :
    pointer.problemOf? path (.error errno) =
      .ok (some (.openError pointer.name pointer.oid errno.text)) := if_neg wanted

private theorem problemOf?_of_absent {pointer : FoundPointer} (path : Bytes)
    (empty : pointer.size = 0) :
    pointer.problemOf? path (.error .noEntry) = .ok none := if_pos ⟨rfl, empty⟩

private theorem problemOf?_of_failure (pointer : FoundPointer) (path : Bytes)
    {reading : Reading Errno} {errno : Errno} (stopped : reading.failure = some errno) :
    pointer.problemOf? path (.ok reading) =
      .error (.inCall (ascii "read(" ++ path ++ ascii ")") errno) := by
  simp only [problemOf?, Digest.ofReading_of_failure stopped]

private theorem problemOf?_of_end (pointer : FoundPointer) (path : Bytes) {reading : Reading Errno}
    (ended : reading.failure = none) :
    pointer.problemOf? path (.ok reading) =
      if Digest.nameOf reading.pieces.flatten = pointer.oid then .ok none
      else .ok (some (.corruptObject pointer.name pointer.oid)) := by
  simp only [problemOf?, Digest.ofReading_of_end ended]
  rfl

/-- Every outcome of opening a file falls under one line of the table. -/
theorem problemOf?_decides (pointer : FoundPointer) (path : Bytes)
    (opened : Except Errno (Reading Errno)) :
    pointer.Decides path opened (pointer.problemOf? path opened) := by
  cases opened with
  | error errno =>
      by_cases absent : errno = .noEntry ∧ pointer.size = 0
      · obtain ⟨rfl, empty⟩ := absent
        rw [problemOf?_of_absent path empty]
        exact ⟨by simp [empty], by simp [empty], by simp⟩
      · rw [problemOf?_of_refused pointer path absent]
        exact ⟨by simpa using absent, by simpa [eq_comm] using absent, by simp⟩
  | ok reading =>
      cases stopped : reading.failure with
      | some errno =>
          rw [problemOf?_of_failure pointer path stopped]
          exact ⟨by simp [stopped], by simp [stopped], by simp [stopped, eq_comm]⟩
      | none =>
          rw [problemOf?_of_end pointer path stopped]
          by_cases named : Digest.nameOf reading.pieces.flatten = pointer.oid
          · rw [if_pos named]
            exact ⟨by simp [stopped, named], by simp [named], by simp [stopped]⟩
          · rw [if_neg named]
            exact ⟨by simp [named], fun finding => by simpa [stopped, named] using eq_comm,
              by simp [stopped]⟩

end FoundPointer

/-- A directory can be opened and not be read. -/
theorem FileTree.openForReading_of_isDirectory {files : FileTree} {path : Bytes}
    (folder : files.isDirectory path = true) (offset : Nat) :
    files.openForReading path offset = .ok ⟨[], some .isDirectory⟩ := by
  cases looked : files.entryOf path with
  | error errno => simp [isDirectory, looked] at folder
  | ok found =>
      have real : found.2.isDirectory = true := by simpa [isDirectory, looked] using folder
      rw [openForReading, looked]
      cases entry : found.2 with
      | directory | sealedDirectory => simp [entry, reading]
      | file _ | link _ | device _ => simp [entry, Entry.isDirectory] at real

namespace Store

open Audit

variable (store : Store)

/-- A look at an object makes a record for the trace, opens the object and decides. -/
theorem checkObjectBy_apply (opening : Opening) {pointer : FoundPointer}
    (valid : Digest.isText pointer.oid = true) (session : Session) :
    store.checkObjectBy opening pointer session =
      let path := store.pathOf pointer.oid
      let traced := (trace (pointer.examination path) session).2
      (pointer.problemOf? path (opening traced.files path),
        { traced with opened := traced.opened ++ [path] }) := by
  rw [checkObjectBy, store.objectPath_of_isText valid]
  exact liftExcept_apply _ _

/-- **The table of a look at an object.** However files are opened, a look at the object of a valid
name says nothing, makes a finding or fails as the outcome of opening the file and the pointer
decide. It attempts no change and opens that one file; the files stay as they are, but for a record
of the look in an open journal file. A directory in place of the object is a failure. -/
theorem checkObject_decides (opening : Opening) {pointer : FoundPointer}
    (valid : Digest.isText pointer.oid = true) (session : Session) :
    let path := store.pathOf pointer.oid
    let outcome := (store.checkObjectBy opening pointer session).1
    let after := (store.checkObjectBy opening pointer session).2
    pointer.Decides path (opening after.files path) outcome ∧
      after.changes = session.changes ∧ after.opened = session.opened ++ [path] ∧
      after.files = session.journal.write session.files Journal.traceLevel
        (pointer.examination path ++ [Ascii.newline]) ∧
      ((∀ place, session.journal.sink ≠ .file place) → after.files = session.files) ∧
      ((store.checkObject pointer session).2.files.isDirectory path = true →
        (store.checkObject pointer session).1 =
          .error (.inCall (ascii "read(" ++ path ++ ascii ")") .isDirectory)) := by
  intro path outcome after
  have looked := store.checkObjectBy_apply opening valid session
  have said : outcome = pointer.problemOf? path (opening after.files path) := by
    simp only [outcome, after, looked]
    rfl
  refine ⟨?_, ?_, ?_, ?_, fun noFile => ?_, fun folder => ?_⟩
  · rw [said]
    exact pointer.problemOf?_decides path _
  · simp only [after, looked]
    rfl
  · simp only [after, looked]
    rfl
  · simp only [after, looked]
    rfl
  · simp only [after, looked]
    exact Journal.writeAll_of_noFile noFile session.files
      [(Journal.traceLevel, pointer.examination path ++ [Ascii.newline])]
  · rw [checkObject, store.checkObjectBy_apply _ valid session] at folder ⊢
    dsimp only at folder ⊢
    rw [FileTree.openForReading_of_isDirectory folder]
    exact pointer.problemOf?_of_failure path rfl

/-- A file that may not be opened is reported even for an empty content, and the files stay. -/
theorem checkObject_decides_of_denied :
    let store : Store := ⟨ascii "s"⟩
    let pointer : FoundPointer := { name := ascii "a", oid := Digest.nameOf [], size := 0 }
    let denied : Errno := ⟨13⟩
    let opening : Opening := fun _ _ => .error denied
    let session : Session := {}
    let path := store.pathOf pointer.oid
    let outcome := (store.checkObjectBy opening pointer session).1
    Digest.isText pointer.oid = true ∧ (∀ place, session.journal.sink ≠ .file place) ∧
      outcome = .ok (some (.openError (ascii "a") pointer.oid (ascii "Permission denied"))) ∧
      pointer.Decides path (.error denied) outcome ∧
      (store.checkObjectBy opening pointer session).2.files = session.files := by
  intro store pointer denied opening session path outcome
  have valid : Digest.isText pointer.oid = true := by decide +kernel
  have noFile : ∀ place, session.journal.sink ≠ .file place := fun place => nofun
  obtain ⟨decides, -, -, -, same, -⟩ := store.checkObject_decides opening valid session
  refine ⟨valid, noFile, ?_, decides, same noFile⟩
  decide +kernel

/-- While an open journal file takes traces, a look at an object writes its record there. -/
theorem checkObject_writes_open_journal :
    let store : Store := ⟨ascii "s"⟩
    let pointer : FoundPointer := { name := ascii "a", oid := Digest.nameOf [], size := 5 }
    let session : Session :=
      { files := { entries := [([ascii "log"], .file [])] }
        journal := { level := Journal.traceLevel, sink := .file [ascii "log"] } }
    let after := (store.checkObject pointer session).2
    after.changes = [] ∧ session.files.get? [ascii "log"] = some (.file []) ∧
      after.files.get? [ascii "log"] =
        some (.file (ascii "2000-01-01 00:00:00 DEBUG: Examining a (" ++
          store.pathOf pointer.oid ++ ascii ")\n")) ∧
      after.files ≠ session.files := by
  decide +kernel

end Store

end StoreAudit
