import StoreAudit.Proofs.FileTree.Append
import StoreAudit.Proofs.Session.Step

/-!
# What records of events leave in the files

A run that only looks at the store still writes to its journal. Its files are those it started with
after some events, `Journal.writeAll`, and without an open journal file these are the same files.
-/

namespace StoreAudit

namespace Journal

variable (journal : Journal)

/-- The files after events, one after the other. -/
def writeAll (files : FileTree) (events : List (Int × Bytes)) : FileTree :=
  events.foldl (fun files (level, text) => journal.write files level text) files

@[simp] theorem writeAll_cons (files : FileTree) (level : Int) (text : Bytes)
    (rest : List (Int × Bytes)) :
    journal.writeAll files ((level, text) :: rest) =
      journal.writeAll (journal.write files level text) rest := rfl

/-- Records are written one after the other. -/
theorem writeAll_append (files : FileTree) (events more : List (Int × Bytes)) :
    journal.writeAll files (events ++ more) =
      journal.writeAll (journal.writeAll files events) more :=
  List.foldl_append

variable {journal}

/-- Without an open file, events leave the files alone. -/
theorem writeAll_of_noFile (noFile : ∀ place, journal.sink ≠ .file place) (files : FileTree)
    (events : List (Int × Bytes)) : journal.writeAll files events = files := by
  induction events with
  | nil => rfl
  | cons event rest ih =>
      obtain ⟨level, text⟩ := event
      have alone : journal.write files level text = files := by
        unfold write
        split
        · rename_i place sink
          exact absurd sink (noFile place)
        · rfl
        · rfl
      rw [writeAll_cons, alone, ih]

variable (journal)

/-- A record keeps everything that is there. -/
theorem keptIn_write (files : FileTree) (level : Int) (text : Bytes) :
    files.KeptIn (journal.write files level text) := by
  unfold write
  split
  · exact files.keptIn_append _ _
  · exact .refl files
  · exact .refl files

/-- Records keep everything that is there. -/
theorem keptIn_writeAll (files : FileTree) (events : List (Int × Bytes)) :
    files.KeptIn (journal.writeAll files events) := by
  induction events generalizing files with
  | nil => exact .refl files
  | cons event rest ih => exact (journal.keptIn_write files event.1 event.2).trans (ih _)

/-- A record makes no new files. -/
theorem get?_write_eq_none {files : FileTree} {level : Int} {text : Bytes} {place : Place} :
    (journal.write files level text).get? place = none ↔ files.get? place = none := by
  unfold write
  split
  · exact FileTree.get?_append_eq_none
  · rfl
  · rfl

/-- Records make no new files. -/
theorem get?_writeAll_eq_none {files : FileTree} {events : List (Int × Bytes)} {place : Place} :
    (journal.writeAll files events).get? place = none ↔ files.get? place = none := by
  induction events generalizing files with
  | nil => rfl
  | cons event rest ih => exact ih.trans journal.get?_write_eq_none

private theorem write_put_vacant (files : FileTree) {place : Place} {entry : Entry}
    (vacant : files.get? place = none) (noFile : ∀ data, entry ≠ .file data) (level : Int)
    (text : Bytes) :
    journal.write (files.put place entry) level text =
      (journal.write files level text).put place entry := by
  unfold write
  split
  · exact files.append_put_vacant vacant noFile _ _
  · rfl
  · rfl

/-- Events do not meet a link that was put at a vacant place. -/
theorem writeAll_put_vacant (files : FileTree) {place : Place} {entry : Entry}
    (vacant : files.get? place = none) (noFile : ∀ data, entry ≠ .file data)
    (events : List (Int × Bytes)) :
    journal.writeAll (files.put place entry) events =
      (journal.writeAll files events).put place entry := by
  induction events generalizing files with
  | nil => rfl
  | cons event rest ih =>
      obtain ⟨level, text⟩ := event
      have still : (journal.write files level text).get? place = none :=
        journal.get?_write_eq_none.mpr vacant
      rw [writeAll_cons, journal.write_put_vacant files vacant noFile, ih _ still, writeAll_cons]

/-- Removing a link that was made before events leaves the files as if it had not been made. -/
theorem remove_writeAll_of_makeLink {files linked : FileTree} {target path : Bytes}
    (made : files.makeLink target path = .ok linked) (events : List (Int × Bytes)) :
    (journal.writeAll linked events).remove path = .ok (journal.writeAll files events) ∧
      (journal.writeAll files events).readLink? path = none := by
  obtain ⟨above, name, spot, short, vacant, noDirectory, rfl⟩ := FileTree.makeLink_eq_ok made
  have still : (journal.writeAll files events).get? (above ++ [name]) = none :=
    journal.get?_writeAll_eq_none.mpr vacant
  have kept := journal.keptIn_writeAll files events
  constructor
  · have further := kept.trans (FileTree.keptIn_put_vacant _ (.link target.beforeNul) still)
    have there : ((journal.writeAll files events).put (above ++ [name])
        (.link target.beforeNul)).get? (above ++ [name]) = some (.link target.beforeNul) := by
      rw [FileTree.get?_put_vacant _ still, if_pos rfl]
    rw [journal.writeAll_put_vacant files vacant (fun _ => Entry.noConfusion),
      FileTree.remove_of_link (FileTree.spotOf_keptIn further spot) short there noDirectory,
      FileTree.erase_put_vacant _ _ still]
  · simp only [FileTree.readLink?, FileTree.spotOf_keptIn kept spot, Spot.place, still]

private theorem makeDirectories_write (files : FileTree) (level : Int) (text path : Bytes) :
    (journal.write files level text).makeDirectories path =
      (journal.write (files.makeDirectories path).1 level text,
        (files.makeDirectories path).2) := by
  unfold write
  split
  · exact files.makeDirectories_append _ _ path
  · rfl
  · rfl

/-- Records and the making of directories do not meet. -/
theorem makeDirectories_writeAll (files : FileTree) (events : List (Int × Bytes)) (path : Bytes) :
    (journal.writeAll files events).makeDirectories path =
      (journal.writeAll (files.makeDirectories path).1 events, (files.makeDirectories path).2) := by
  induction events generalizing files with
  | nil => rfl
  | cons event rest ih =>
      obtain ⟨level, text⟩ := event
      rw [writeAll_cons, ih, journal.makeDirectories_write]
      rfl

/-- Whether directories are refused does not depend on records. -/
theorem makeDirectories_refused_writeAll {files : FileTree} {events : List (Int × Bytes)}
    {path : Bytes} {errno : Errno} :
    (journal.writeAll files events).makeDirectories path =
        (journal.writeAll files events, .error errno) ↔
      files.makeDirectories path = (files, .error errno) := by
  rw [journal.makeDirectories_writeAll]
  constructor
  · intro refused
    obtain ⟨sameFiles, outcome⟩ := Prod.mk.inj refused
    refine Prod.ext ?_ outcome
    rcases files.makeEach_cases (files.missingDirectories path) with same | ⟨place, vacant, filled⟩
    · exact same
    · have still : (journal.writeAll files events).get? place = none :=
        journal.get?_writeAll_eq_none.mpr vacant
      rw [← sameFiles, journal.get?_writeAll_eq_none] at still
      exact absurd still filled
  · intro refused
    rw [refused]

end Journal

/-- What stands at a place is as before, or is the open journal file with more records. -/
def Journal.Extends (journal : Journal) (place : Place) (before after : Option Entry) : Prop :=
  after = before ∨ journal.sink = .file place ∧
    ∃ old more, before = some (.file old) ∧ after = some (.file (old ++ more))

namespace Journal

variable {journal : Journal} {place : Place} {before middle after : Option Entry}

/-- What is extended twice is extended. -/
theorem Extends.trans (first : journal.Extends place before middle)
    (second : journal.Extends place middle after) : journal.Extends place before after := by
  rcases first with rfl | ⟨sink, old, more, shape, rfl⟩
  · exact second
  rcases second with rfl | ⟨-, other, last, same, rfl⟩
  · exact .inr ⟨sink, old, more, shape, rfl⟩
  · cases same
    exact .inr ⟨sink, old, more ++ last, shape, by rw [List.append_assoc]⟩

/-- Only files are extended. -/
theorem Extends.eq_of_noFile (extends_ : journal.Extends place before after)
    (noFile : ∀ data, before ≠ some (.file data)) : after = before := by
  rcases extends_ with same | ⟨-, old, -, shape, -⟩
  · exact same
  · exact absurd shape (noFile old)

/-- What is no file was not extended. -/
theorem Extends.eq_of_noFile_after (extends_ : journal.Extends place before after)
    (noFile : ∀ data, after ≠ some (.file data)) : after = before := by
  rcases extends_ with same | ⟨-, old, more, -, shape⟩
  · exact same
  · exact absurd shape (noFile (old ++ more))

/-- What is extended stays what it is. -/
theorem Extends.isDirectory_of_some {entry : Entry}
    (extends_ : journal.Extends place (some entry) after) :
    ∃ other, after = some other ∧ other.isDirectory = entry.isDirectory := by
  rcases extends_ with rfl | ⟨-, old, more, shape, rfl⟩
  · exact ⟨entry, rfl, rfl⟩
  · cases shape
    exact ⟨_, rfl, rfl⟩

/-- What was extended was there as what it is. -/
theorem Extends.isDirectory_of_some_after {entry : Entry}
    (extends_ : journal.Extends place before (some entry)) :
    ∃ other, before = some other ∧ other.isDirectory = entry.isDirectory := by
  rcases extends_ with same | ⟨-, old, more, rfl, shape⟩
  · exact ⟨entry, same.symm, rfl⟩
  · cases shape
    exact ⟨_, rfl, rfl⟩

/-- A record extends the open journal file and nothing else. -/
theorem extends_write (journal : Journal) (files : FileTree) (level : Int) (text : Bytes)
    (place : Place) :
    journal.Extends place (files.get? place) ((journal.write files level text).get? place) := by
  unfold write
  split
  · rename_i target sink
    rw [FileTree.get?_append]
    split
    · rename_i old found
      by_cases same : place = target
      · rw [if_pos same]
        exact .inr ⟨same ▸ sink, old, _, found, rfl⟩
      · rw [if_neg same]
        exact .inl found.symm
    · exact .inl rfl
  · exact .inl rfl
  · exact .inl rfl

/-- A record keeps a tree a tree. -/
theorem isTree_write (journal : Journal) {files : FileTree} (isTree : files.IsTree) (level : Int)
    (text : Bytes) : (journal.write files level text).IsTree := by
  unfold write
  split
  · exact FileTree.isTree_append isTree _ _
  · exact isTree
  · exact isTree

end Journal

namespace Session

/-- The files are those of the session but for records of events. -/
def Sees (session : Session) (files : FileTree) : Prop :=
  ∃ events, files = session.journal.writeAll session.files events

/-- The later session differs from the earlier one as after a step that only looks at the store:
no change was attempted, the journal may have grown, and findings may have been added to the
report. -/
structure Observes (before after : Session) : Prop where
  journal : after.journal = before.journal
  pid : after.pid = before.pid
  changes : after.changes = before.changes
  files : before.Sees after.files
  report : ∃ findings : List Finding, after.report = findings.foldl Report.add before.report

/-- Besides the files that the earlier session has made for the error streams of children, the later
one has made such files only. -/
def Spools (before after : Session) : Prop :=
  ∃ spawns : List Spawn, after.spools = before.spools ++ spawns.map Spawn.path

/-- The later session differs from the earlier one as after a step of a scan, which besides never
reports, opens no file but those of error streams and begins no pass. -/
structure Scans (before after : Session) : Prop where
  journal : after.journal = before.journal
  pid : after.pid = before.pid
  changes : after.changes = before.changes
  files : before.Sees after.files
  report : after.report = before.report
  opened : after.opened = before.opened
  spools : before.Spools after
  passes : after.passes = before.passes

/-- The later session differs from the earlier one as after a step that changes nothing in the
files and may leave records. -/
structure Spares (before after : Session) : Prop where
  journal : after.journal = before.journal
  pid : after.pid = before.pid
  changes : after.changes = before.changes
  files : before.Sees after.files

variable {before middle after : Session}

/-- A session sees its files. -/
theorem sees_self (session : Session) : session.Sees session.files := ⟨[], rfl⟩

/-- What is seen later was to be seen before. -/
theorem Sees.trans {files : FileTree} (journal : middle.journal = before.journal)
    (first : before.Sees middle.files) (second : middle.Sees files) : before.Sees files := by
  obtain ⟨events, written⟩ := first
  obtain ⟨more, rfl⟩ := second
  exact ⟨events ++ more, by rw [Journal.writeAll_append, ← written, journal]⟩

/-- Without an open journal file, the files are those of the session. -/
theorem Sees.eq_of_noFile {session : Session} {files : FileTree} (sees : session.Sees files)
    (noFile : ∀ place, session.journal.sink ≠ .file place) : files = session.files := by
  obtain ⟨events, rfl⟩ := sees
  exact Journal.writeAll_of_noFile noFile _ _

instance : IsPreorder Session Observes where
  refl _ := ⟨rfl, rfl, rfl, sees_self _, [], rfl⟩
  trans _ _ _ first second := by
    refine ⟨second.journal.trans first.journal, second.pid.trans first.pid,
      second.changes.trans first.changes,
      first.files.trans first.journal second.files, ?_⟩
    obtain ⟨findings, reported⟩ := first.report
    obtain ⟨more, reportedLater⟩ := second.report
    exact ⟨findings ++ more, by rw [List.foldl_append, ← reported, reportedLater]⟩

/-- No new file for an error stream is made where there are no more than before. -/
theorem Spools.of_eq (same : after.spools = before.spools) : before.Spools after :=
  ⟨[], by simp [same]⟩

instance : IsPreorder Session Spools where
  refl _ := .of_eq rfl
  trans _ _ _ first second := by
    obtain ⟨spawns, made⟩ := first
    obtain ⟨more, further⟩ := second
    exact ⟨spawns ++ more, by rw [further, made, List.map_append, List.append_assoc]⟩

instance : IsPreorder Session Scans where
  refl _ := ⟨rfl, rfl, rfl, sees_self _, rfl, rfl, .of_eq rfl, rfl⟩
  trans _ _ _ first second :=
    ⟨second.journal.trans first.journal, second.pid.trans first.pid,
      second.changes.trans first.changes,
      first.files.trans first.journal second.files,
      second.report.trans first.report, second.opened.trans first.opened,
      IsTrans.trans _ _ _ first.spools second.spools, second.passes.trans first.passes⟩

instance : IsPreorder Session Spares where
  refl _ := ⟨rfl, rfl, rfl, sees_self _⟩
  trans _ _ _ first second :=
    ⟨second.journal.trans first.journal, second.pid.trans first.pid,
      second.changes.trans first.changes, first.files.trans first.journal second.files⟩

/-- To observe is to spare the files. -/
theorem Observes.spares (observes : before.Observes after) : before.Spares after :=
  ⟨observes.journal, observes.pid, observes.changes, observes.files⟩

/-- To scan is to observe. -/
theorem Scans.observes (scans : before.Scans after) : before.Observes after :=
  ⟨scans.journal, scans.pid, scans.changes, scans.files, [], scans.report⟩

end Session

end StoreAudit
