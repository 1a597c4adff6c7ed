import StoreAudit.FileTree.Change

/-!
# The journal

Every event of the program has a level, and the lower the level the more urgent the event. An event
that is not above the set level makes a record: a time stamp, a tag for its level and its text, cut
to a fixed size. Records go to the journal file while it is open, and to the error stream if they
are urgent or the level is set high for tracing.
-/

namespace StoreAudit

/-- Where records are kept. -/
inductive JournalSink where
  | closed
  | file (place : Place)
  /-- A file that takes no more records because opening another one failed. -/
  | jammed (place : Place)
  deriving DecidableEq, Repr

/-- The state of the journal. -/
structure Journal where
  /-- Events above this level leave no trace. -/
  level : Int := 2
  /-- The current time, in a fixed format of twenty bytes. -/
  stamp : Bytes := ascii "2000-01-01 00:00:00 "
  sink : JournalSink := .closed
  deriving DecidableEq, Repr

namespace Journal

/-- The level of messages for the user's attention. -/
abbrev urgentLevel : Int := 1

/-- The level of ordinary output. -/
abbrev ordinaryLevel : Int := 2

/-- The level of notes for the record. -/
abbrev noteLevel : Int := 3

/-- The level of details for tracing. -/
abbrev traceLevel : Int := 4

/-- The size of a record. -/
def recordSize : Nat := 1023

/-- The tag of a level. -/
def tag (level : Int) : Bytes :=
  if level = 1 then ascii "ERROR: "
  else if level = 2 then ascii "MESSAGE: "
  else if level = 3 then ascii "LOG: "
  else if level = 4 then ascii "DEBUG: "
  else if level = 5 then ascii "VERBOSE: "
  else []

/-- The head of a record. -/
def head (journal : Journal) (level : Int) : Bytes := journal.stamp ++ tag level

/-- Whether an event makes a record. -/
def admits (journal : Journal) (level : Int) : Bool := level ≤ journal.level

/-- The record of an event. -/
def record (journal : Journal) (level : Int) (text : Bytes) : Bytes :=
  (journal.head level ++ text.beforeNul).take recordSize

/-- What an event shows on the error stream: the text of an urgent one, the record of any other
while tracing. -/
def shown (journal : Journal) (level : Int) (text : Bytes) : Bytes :=
  if journal.admits level then
    if level ≤ urgentLevel then (journal.record level text).drop (journal.head level).length
    else if journal.level > ordinaryLevel then journal.record level text
    else []
  else []

/-- What an event adds to the journal file. -/
def kept (journal : Journal) (level : Int) (text : Bytes) : Bytes :=
  if journal.admits level then
    match journal.sink with
    | .file _ => journal.record level text
    | .closed | .jammed _ => []
  else []

/-- The files after an event. -/
def write (journal : Journal) (files : FileTree) (level : Int) (text : Bytes) : FileTree :=
  match journal.sink with
  | .file place => files.append place (journal.kept level text)
  | .closed | .jammed _ => files

/-- The journal without a file. -/
def close (journal : Journal) : Journal := { journal with sink := .closed }

/-- Why a journal file could not be opened. -/
inductive OpenFailure where
  | noDirectory
  | noFile
  deriving DecidableEq, Repr

/-- Opens a journal file, making its directory if that is missing. A journal that has a file already
refuses another one and jams. -/
def openAt (journal : Journal) (files : FileTree) (path : Bytes) :
    Journal × FileTree × Option OpenFailure :=
  if path.isEmpty then (journal, files, some .noDirectory)
  else
    let directory := PathName.directory path
    let (prepared, made) :=
      if directory ≠ path && !files.pathExists directory then files.makeDirectories directory
      else (files, .ok ())
    match made with
    | .error _ => (journal, prepared, some .noDirectory)
    | .ok () =>
      match journal.sink with
      | .file place | .jammed place =>
        ({ journal with sink := .jammed place }, prepared, some .noFile)
      | .closed =>
        match prepared.openForWriting path with
        | .error _ => (journal, prepared, some .noFile)
        | .ok (opened, place, _) => ({ journal with sink := .file place }, opened, none)

end Journal

end StoreAudit
