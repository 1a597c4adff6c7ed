import StoreAudit.Command.Run
import StoreAudit.Proofs.FileTree.Directories
import StoreAudit.Proofs.Session.Records

/-!
# Runs of the journal

The journal is a threshold that can change, a file that can be opened and closed, and the error
stream. What a call of it leaves in the file and shows depends on the state it meets, so a run is
accounted for by its calls together with the states before them. The file then has grown by the
records of the events that were admitted while it was open, and the error stream by what each event
was due to show (`Session.journal_of_calls`).
-/

namespace StoreAudit

/-- A call of the journal. The clock moving on counts as one. -/
inductive JournalCall where
  | setLevel (level : Int)
  | log (level : Int) (text : Bytes)
  | warning (line : Bytes)
  | message (line : Bytes)
  | note (line : Bytes)
  | trace (line : Bytes)
  | openAt (path : Bytes)
  | close
  | tick (stamp : Bytes)

namespace JournalCall

/-- The level and the text of the event that a call is about. -/
def event? : JournalCall → Option (Int × Bytes)
  | log level text => some (level, text)
  | warning line => some (1, ascii "WARNING: " ++ line.beforeNul ++ [Ascii.newline])
  | message line => some (2, line.beforeNul ++ [Ascii.newline])
  | note line => some (3, line.beforeNul ++ [Ascii.newline])
  | trace line => some (4, line.beforeNul ++ [Ascii.newline])
  | setLevel _ | openAt _ | close | tick _ => none

/-- The path of the file that a call is to open. -/
def target? : JournalCall → Option Bytes
  | openAt path => some path
  | _ => none

/-- What is shown when a journal file cannot be opened. -/
def complaint (path : Bytes) : Bytes :=
  ascii "Could not open logfile: " ++ path.beforeNul ++ [Ascii.newline]

/-- Carries out a call. -/
def perform : JournalCall → StateM Session Unit
  | setLevel level => modify fun session =>
      { session with journal := { session.journal with level := level } }
  | log level text => modify fun session =>
      { session with
        files := session.journal.write session.files level text
        errors := session.errors ++ session.journal.shown level text }
  | warning line => Audit.warn line.beforeNul
  | message line => Audit.log Journal.ordinaryLevel line.beforeNul
  | note line => Audit.note line.beforeNul
  | trace line => Audit.trace line.beforeNul
  | openAt path => do
      let session ← get
      let (journal, files, failure) := session.journal.openAt session.files path
      set { session with journal, files }
      if failure = some .noFile then Audit.showError (complaint path)
  | close => modify fun session => { session with journal := session.journal.close }
  | tick stamp => modify fun session =>
      { session with journal := { session.journal with stamp := stamp } }

/-- The session after calls, one after the other. -/
def run (session : Session) (calls : List JournalCall) : Session :=
  calls.foldl (fun session call => (call.perform session).2) session

/-- The calls of a run, each with the session it meets. -/
def history (session : Session) : List JournalCall → List (Session × JournalCall)
  | [] => []
  | call :: rest => (session, call) :: history (call.perform session).2 rest

/-- What a call adds to the file at a place: the record of its event, if that is not above the level
and the file is the open one. -/
def written (place : Place) : Session × JournalCall → Bytes
  | (before, call) =>
    match call.event? with
    | none => []
    | some (level, text) =>
      if level ≤ before.journal.level ∧ before.journal.sink = .file place then
        (before.journal.stamp ++ Journal.tag level ++ text.beforeNul).take 1023
      else []

/-- What a call shows on the error stream: nothing for an event above the level, the record without
its head for an urgent one, and the whole record for any other if the level is set for tracing. -/
def displayed : Session × JournalCall → Bytes
  | (before, call) =>
    match call.event?, call.target? with
    | some (level, text), _ =>
      let head := before.journal.stamp ++ Journal.tag level
      let record := (head ++ text.beforeNul).take 1023
      if before.journal.level < level then []
      else if level ≤ 1 then record.drop head.length
      else if 2 < before.journal.level then record
      else []
    | none, some path =>
      if (before.journal.openAt before.files path).2.2 = some .noFile then complaint path else []
    | none, none => []

/-- No file is opened while one is open; to be refused before that is fine. -/
def Orderly : Session × JournalCall → Prop
  | (before, call) => ∀ path ∈ call.target?, before.journal.sink = .closed ∨
      (before.journal.openAt before.files path).2.2 = some .noDirectory

instance : DecidablePred Orderly := fun (before, call) =>
  inferInstanceAs (Decidable (∀ path ∈ call.target?, before.journal.sink = .closed ∨
    (before.journal.openAt before.files path).2.2 = some .noDirectory))

/-- What stands at a place before and after a run that was to add bytes to the file there. -/
inductive Grows : Bytes → Option Entry → Option Entry → Prop
  | still (found : Option Entry) : Grows [] found found
  | directory : Grows [] none (some .directory)
  | created (added : Bytes) : Grows added none (some (.file added))
  | longer (old added : Bytes) : Grows added (some (.file old)) (some (.file (old ++ added)))
  /-- What is neither a file nor a directory takes any bytes and keeps none. -/
  | swallowed (added : Bytes) {entry : Entry} : entry.isDirectory = false →
      (∀ data, entry ≠ .file data) → Grows added (some entry) (some entry)

private theorem Grows.trans {added more : Bytes} {before middle after : Option Entry}
    (first : Grows added before middle) (second : Grows more middle after) :
    Grows (added ++ more) before after := by
  cases first with
  | still => exact second
  | directory =>
      cases second with
      | still => exact .directory
      | swallowed _ noDirectory _ => cases noDirectory
  | created =>
      cases second with
      | still => simpa using Grows.created added
      | longer => exact .created _
      | swallowed _ _ noFile => exact absurd rfl (noFile _)
  | longer old =>
      cases second with
      | still => simpa using Grows.longer old added
      | longer => simpa using Grows.longer old (added ++ more)
      | swallowed _ _ noFile => exact absurd rfl (noFile _)
  | swallowed _ noDirectory noFile =>
      cases second with
      | still => simpa using Grows.swallowed added noDirectory noFile
      | longer => exact absurd rfl (noFile _)
      | swallowed => exact .swallowed _ noDirectory noFile

private theorem Grows.exists_of_some {added : Bytes} {entry : Entry} {after : Option Entry}
    (grows : Grows added (some entry) after) (noDirectory : entry.isDirectory = false) :
    ∃ other, after = some other ∧ other.isDirectory = false := by
  cases grows with
  | still => exact ⟨entry, rfl, noDirectory⟩
  | longer old => exact ⟨_, rfl, rfl⟩
  | swallowed => exact ⟨entry, rfl, noDirectory⟩

end JournalCall

open JournalCall

private theorem FileTree.Gains.grows {tree later : FileTree} {paths : List Bytes}
    (gains : tree.Gains later paths) (place : Place) :
    Grows [] (tree.get? place) (later.get? place) := by
  cases before : tree.get? place with
  | some entry =>
      rw [gains.kept place entry before]
      exact .still _
  | none =>
      cases after : later.get? place with
      | none => exact .still _
      | some entry =>
          obtain ⟨rfl, -⟩ := gains.gained place entry before after
          exact .directory

/-- A file that is opened for writing is there or is made empty, and the path leads to it. -/
theorem FileTree.openForWriting_eq_ok {tree opened : FileTree} {path : Bytes} {place : Place}
    {entry : Entry} (opens : tree.openForWriting path = .ok (opened, place, entry)) :
    entry.isDirectory = false ∧ opened.entryOf path = .ok (place, entry) ∧
      ∀ other, Grows [] (tree.get? other) (opened.get? other) := by
  unfold openForWriting at opens
  split at opens
  · cases opens
  · cases opens
  rename_i above name spot
  simp only [spotToWrite] at spot
  split at spot
  · cases spot
  · cases spot
  rename_i found
  split at spot
  · cases spot
  rename_i noEnd
  have fits := refusal?_of_spotOf found
  have reaches := walk_eq_ok_iff.mp spot
  have parts : steps path.beforeNul = names path.beforeNul := by rw [steps, if_neg noEnd]
  dsimp only at opens
  split at opens
  · rename_i vacant
    cases created : tree.create above name (.file []) with
    | error errno =>
        rw [created] at opens
        cases opens
    | ok made =>
        rw [created] at opens
        cases opens
        obtain ⟨-, rfl⟩ := create_eq_ok created
        have there : ∀ other, (tree.put (above ++ [name]) (.file [])).get? other =
            if other = above ++ [name] then some (.file []) else tree.get? other :=
          get?_put_vacant tree vacant
        refine ⟨rfl, entryOf_eq_ok_iff.mpr ⟨fits, ?_, .named above name, rfl, ?_⟩, fun other => ?_⟩
        · rw [there, if_pos rfl]
        · rw [parts]
          refine reaches.keptIn (keptIn_put_vacant tree _ vacant) fun _ other target shown => ?_
          rw [there] at shown
          split at shown
          · cases shown
          · exact shown
        · rw [there]
          split
          · rename_i same
            rw [same, vacant]
            exact .created []
          · exact .still _
  · rename_i found
    split at opens
    · cases opens
    · rename_i noDirectory
      cases opens
      refine ⟨Bool.eq_false_iff.mpr noDirectory, entryOf_eq_ok_iff.mpr ?_, fun other => .still _⟩
      exact ⟨fits, found, .named above name, rfl, parts ▸ reaches⟩

/-- The ways in which opening a journal file can end. -/
theorem Journal.openAt_cases {journal after : Journal} {files later : FileTree} {path : Bytes}
    {failure : Option OpenFailure} (opens : journal.openAt files path = (after, later, failure)) :
    (failure = some .noDirectory ∧ after = journal ∧ ∃ paths, files.Gains later paths) ∨
      (failure = some .noFile ∧ (journal.sink = .closed → after = journal) ∧
        ∃ paths, files.Gains later paths) ∨
      failure = none ∧ journal.sink = .closed ∧
        ∃ paths prepared place entry, files.Gains prepared paths ∧
          prepared.openForWriting path = .ok (later, place, entry) ∧
          after = { journal with sink := .file place } := by
  unfold openAt at opens
  split at opens
  · cases opens
    exact .inl ⟨rfl, rfl, [], .refl files []⟩
  dsimp only at opens
  generalize attempt : (if PathName.directory path ≠ path &&
      !files.pathExists (PathName.directory path)
    then files.makeDirectories (PathName.directory path) else (files, .ok ())) = made at opens
  have gains : ∃ paths, files.Gains made.1 paths := by
    rw [← attempt]
    split
    · exact ⟨_, files.makeDirectories_gains _⟩
    · exact ⟨[], .refl files []⟩
  obtain ⟨paths, gains⟩ := gains
  obtain ⟨prepared, made⟩ := made
  cases made with
  | error errno =>
      cases opens
      exact .inl ⟨rfl, rfl, paths, gains⟩
  | ok _ =>
      cases sink : journal.sink with
      | file place | jammed place =>
          simp only [sink] at opens
          cases opens
          exact .inr (.inl ⟨rfl, nofun, paths, gains⟩)
      | closed =>
          simp only [sink] at opens
          split at opens
          · cases opens
            exact .inr (.inl ⟨rfl, fun _ => rfl, paths, gains⟩)
          · rename_i opened place entry happened
            cases opens
            exact .inr (.inr ⟨rfl, rfl, paths, prepared, place, entry, gains, happened, rfl⟩)

/-- The journal can go on, and the file it has open is there. -/
structure Session.JournalStands (session : Session) : Prop where
  unjammed : ∀ place, session.journal.sink ≠ .jammed place
  isThere : ∀ place, session.journal.sink = .file place →
    ∃ entry, session.files.get? place = some entry ∧ entry.isDirectory = false

private theorem Session.JournalStands.of_closed {session : Session}
    (closed : session.journal.sink = .closed) : session.JournalStands where
  unjammed _ jammed := nomatch closed.symm.trans jammed
  isThere _ file := nomatch closed.symm.trans file

namespace JournalCall

variable {session : Session} {call : JournalCall}

/-- A call that is an event writes it and shows it. -/
theorem perform_of_event {level : Int} {text : Bytes} (event : call.event? = some (level, text))
    (session : Session) :
    (call.perform session).2 =
      { session with
        files := session.journal.write session.files level text
        errors := session.errors ++ session.journal.shown level text } := by
  cases call <;> cases event <;> rfl

private theorem perform_openAt_apply (path : Bytes) (session : Session) :
    (openAt path).perform session =
      (if (session.journal.openAt session.files path).2.2 = some .noFile then
          Audit.showError (complaint path) else pure ())
        { session with
          journal := (session.journal.openAt session.files path).1
          files := (session.journal.openAt session.files path).2.1 } := rfl

/-- A call that opens the journal does so whether or not it fails. -/
theorem perform_openAt (path : Bytes) (session : Session) :
    ((openAt path).perform session).2 =
      { session with
        journal := (session.journal.openAt session.files path).1
        files := (session.journal.openAt session.files path).2.1
        errors := session.errors ++ displayed (session, openAt path) } := by
  rw [perform_openAt_apply, displayed]
  simp only [event?, target?]
  split
  · rfl
  · rw [List.append_nil]
    rfl

/-- What a call shows is what it is due to show. -/
theorem perform_errors (call : JournalCall) (session : Session) :
    (call.perform session).2.errors = session.errors ++ displayed (session, call) := by
  cases event : call.event? with
  | some happened =>
      obtain ⟨level, text⟩ := happened
      rw [perform_of_event event]
      simp only [displayed, event, Journal.shown, Journal.admits, decide_eq_true_eq]
      by_cases above : session.journal.level < level
      · rw [if_neg (Int.not_le.mpr above), if_pos above]
      · rw [if_pos (Int.not_lt.mp above), if_neg above]
        rfl
  | none =>
      cases call with
      | openAt path => rw [perform_openAt]
      | setLevel _ | close | tick _ => exact (List.append_nil _).symm
      | log _ _ | warning _ | message _ | note _ | trace _ => cases event

/-- What an event is due to add to a file is what the journal keeps of it, if that is the open
file. -/
theorem written_of_event {level : Int} {text : Bytes} (event : call.event? = some (level, text))
    (place : Place) :
    written place (session, call) =
      if session.journal.sink = .file place then session.journal.kept level text else [] := by
  simp only [written, event, Journal.kept, Journal.admits, decide_eq_true_eq]
  by_cases isOpen : session.journal.sink = .file place
  · simp only [isOpen, and_true, if_true]
    rfl
  · simp only [isOpen, and_false, if_false]

private theorem grows_of_event {level : Int} {text : Bytes}
    (event : call.event? = some (level, text)) (stands : session.JournalStands) (place : Place) :
    Grows (written place (session, call)) (session.files.get? place)
      ((session.journal.write session.files level text).get? place) := by
  rw [written_of_event event, Journal.write]
  cases sink : session.journal.sink with
  | jammed target => exact absurd sink (stands.unjammed target)
  | closed =>
      rw [if_neg nofun]
      exact .still _
  | file target =>
      dsimp only
      rw [FileTree.get?_append]
      by_cases same : place = target
      · subst same
        obtain ⟨entry, found, noDirectory⟩ := stands.isThere place sink
        rw [if_pos rfl, found]
        cases entry with
        | file old =>
            simp only [if_true]
            exact .longer old _
        | link _ | device _ => exact .swallowed _ rfl nofun
        | directory | sealedDirectory => cases noDirectory
      · rw [if_neg fun other => same (JournalSink.file.inj other).symm]
        simp only [same, if_false]
        cases session.files.get? place with
        | none => exact .still _
        | some entry => cases entry <;> exact .still _

/-- Opening a file in order adds nothing to any, and the journal can go on after it. -/
theorem grows_of_openAt {path : Bytes} (stands : session.JournalStands)
    (orderly : Orderly (session, openAt path)) :
    (∀ place, Grows [] (session.files.get? place)
      (((openAt path).perform session).2.files.get? place)) ∧
      ((openAt path).perform session).2.JournalStands := by
  have allowed := orderly path rfl
  rw [perform_openAt]
  rcases opens : session.journal.openAt session.files path with ⟨after, later, failure⟩
  rw [opens] at allowed
  rcases Journal.openAt_cases opens with
    ⟨rfl, rfl, paths, gains⟩ | ⟨rfl, same, paths, gains⟩ |
    ⟨rfl, closed, paths, prepared, target, entry, gains, happened, rfl⟩
  · refine ⟨gains.grows, stands.unjammed, fun place sink => ?_⟩
    obtain ⟨entry, found, noDirectory⟩ := stands.isThere place sink
    exact ⟨entry, gains.kept place entry found, noDirectory⟩
  · -- The file itself failed, so by `orderly` none was open that could be jammed.
    have closed := allowed.resolve_right nofun
    obtain rfl := same closed
    exact ⟨gains.grows, .of_closed closed⟩
  · obtain ⟨noDirectory, leads, further⟩ := FileTree.openForWriting_eq_ok happened
    refine ⟨fun place => (gains.grows place).trans (further place), nofun, ?_⟩
    intro place sink
    cases sink
    exact ⟨entry, (FileTree.entryOf_eq_ok_iff.mp leads).2.1, noDirectory⟩

/-- A call in order adds what it is due to add, and the journal can go on after it. -/
theorem perform_grows (stands : session.JournalStands) (orderly : Orderly (session, call)) :
    (∀ place, Grows (written place (session, call)) (session.files.get? place)
      ((call.perform session).2.files.get? place)) ∧ (call.perform session).2.JournalStands := by
  cases event : call.event? with
  | some happened =>
      obtain ⟨level, text⟩ := happened
      have grows := fun place => grows_of_event event stands place
      rw [perform_of_event event]
      refine ⟨grows, stands.unjammed, fun place sink => ?_⟩
      obtain ⟨entry, found, noDirectory⟩ := stands.isThere place sink
      have further := grows place
      rw [found] at further
      exact further.exists_of_some noDirectory
  | none =>
      have nothing (place : Place) : written place (session, call) = [] := by
        simp only [written, event]
      simp only [nothing]
      cases call with
      | setLevel _ | tick _ => exact ⟨fun _ => .still _, stands.unjammed, stands.isThere⟩
      | close => exact ⟨fun _ => .still _, .of_closed rfl⟩
      | openAt path => exact grows_of_openAt stands orderly
      | log _ _ | warning _ | message _ | note _ | trace _ => cases event

/-- The file that a call opens is the one that its path leads to. -/
theorem entryOf_of_openAt {path : Bytes}
    (opens : (session.journal.openAt session.files path).2.2 = none) :
    ∃ place entry, ((openAt path).perform session).2.journal.sink = .file place ∧
      ((openAt path).perform session).2.files.entryOf path = .ok (place, entry) ∧
      entry.isDirectory = false := by
  rw [perform_openAt]
  rcases result : session.journal.openAt session.files path with ⟨after, later, failure⟩
  rw [result] at opens
  rcases Journal.openAt_cases result with
    ⟨rfl, -⟩ | ⟨rfl, -⟩ | ⟨-, -, paths, prepared, place, entry, -, happened, rfl⟩
  · cases opens
  · cases opens
  · obtain ⟨noDirectory, leads, -⟩ := FileTree.openForWriting_eq_ok happened
    exact ⟨place, entry, rfl, leads, noDirectory⟩

private theorem errors_of_above {level : Int} {text : Bytes}
    (event : call.event? = some (level, text)) (above : session.journal.level < level) :
    (call.perform session).2.errors = session.errors := by
  rw [perform_errors]
  simp only [displayed, event, above, if_true, List.append_nil]

private theorem get?_of_above {level : Int} {text : Bytes}
    (event : call.event? = some (level, text))
    (above : session.journal.level < level) (place : Place) :
    (call.perform session).2.files.get? place = session.files.get? place := by
  have nothing : session.journal.kept level text = [] := by
    rw [Journal.kept, Journal.admits, if_neg]
    simpa using above
  rw [perform_of_event event, Journal.write, nothing]
  split
  · rw [FileTree.get?_append]
    cases session.files.get? place with
    | none => rfl
    | some entry => cases entry <;> simp
  · rfl
  · rfl

/-- Calls are performed one after the other. -/
@[simp] theorem run_cons (session : Session) (call : JournalCall) (rest : List JournalCall) :
    run session (call :: rest) = run (call.perform session).2 rest := rfl

/-- What calls show is shown in their order. -/
theorem run_errors (session : Session) (calls : List JournalCall) :
    (run session calls).errors =
      session.errors ++ (history session calls).flatMap displayed := by
  induction calls generalizing session with
  | nil => exact (List.append_nil _).symm
  | cons call rest ih =>
      rw [run_cons, ih, perform_errors, history, List.flatMap_cons, List.append_assoc]

private theorem run_grows {calls : List JournalCall} (stands : session.JournalStands)
    (orderly : ∀ step ∈ history session calls, Orderly step) (place : Place) :
    Grows ((history session calls).flatMap (written place)) (session.files.get? place)
      ((run session calls).files.get? place) := by
  induction calls generalizing session with
  | nil => exact .still _
  | cons call rest ih =>
      rw [history, List.forall_mem_cons] at orderly
      obtain ⟨grows, stands⟩ := perform_grows stands orderly.1
      rw [run_cons, history, List.flatMap_cons]
      exact (grows place).trans (ih stands orderly.2)

end JournalCall

/-- Opening the journal of a store is a run of such calls. -/
theorem Surroundings.openJournal_eq_run (store : Store) (session : Session) :
    ∃ calls, (openJournal store session).2 = JournalCall.run session calls ∧
      (calls = [.openAt store.journalPath] ∨ calls = [.openAt store.journalPath,
        .warning (ascii "Cannot open log " ++ store.journalPath.beforeNul)]) := by
  have uncut : (ascii "Cannot open log " ++ store.journalPath.beforeNul).beforeNul =
      ascii "Cannot open log " ++ store.journalPath.beforeNul := by
    refine Bytes.beforeNul_of_notMem fun member => ?_
    rcases List.mem_append.mp member with text | path
    · exact absurd text (by decide)
    · exact Bytes.nul_notMem_beforeNul _ path
  have got : (get : StateM Session Session) session = (session, session) := rfl
  rcases opens : session.journal.openAt session.files store.journalPath with
    ⟨after, later, failure⟩
  cases failure with
  | none =>
      refine ⟨_, ?_, .inl rfl⟩
      rw [run_cons, perform_openAt_apply, opens]
      simp only [openJournal, Audit.bind_state_apply, got, opens]
      rfl
  | some problem =>
      refine ⟨_, ?_, .inr rfl⟩
      rw [run_cons, run_cons, perform_openAt_apply, opens, perform, uncut]
      simp only [openJournal, Audit.bind_state_apply, got, opens]
      cases problem <;> rfl

/-- **What a run of the journal leaves.** Whatever the calls, the error stream goes on with what
each of them is due to show, and what stands at each place goes on with the records that were due
there: the first 1023 bytes of time stamp, tag and text of every event that was not above the level
of the moment, while the file there was open. Nothing that was there before is lost. An event above
the level leaves no trace, and the file that is opened is the one at the end of the path. -/
theorem Session.journal_of_calls {session : Session} {calls : List JournalCall}
    (stands : session.JournalStands) (orderly : ∀ step ∈ history session calls, Orderly step) :
    (run session calls).errors = session.errors ++ (history session calls).flatMap displayed ∧
      (∀ place, Grows ((history session calls).flatMap (written place))
        (session.files.get? place) ((run session calls).files.get? place)) ∧
      (∀ (before : Session) (call : JournalCall) level text, call.event? = some (level, text) →
        before.journal.level < level → (call.perform before).2.errors = before.errors ∧
          ∀ place, (call.perform before).2.files.get? place = before.files.get? place) ∧
      ∀ (before : Session) path, (before.journal.openAt before.files path).2.2 = none →
        ∃ place entry, ((JournalCall.openAt path).perform before).2.journal.sink = .file place ∧
          ((JournalCall.openAt path).perform before).2.files.entryOf path = .ok (place, entry) ∧
          entry.isDirectory = false :=
  ⟨run_errors session calls, run_grows stands orderly,
    fun _ _ _ _ event above => ⟨errors_of_above event above, get?_of_above event above⟩,
    fun _ _ opens => entryOf_of_openAt opens⟩

/-- A run that opens a file in a missing directory, traces for a while and closes the file. -/
def sampleCalls : List JournalCall :=
  [.message (ascii "a"), .openAt (ascii "logs/run.log"), .warning (ascii "b"), .note (ascii "c"),
    .setLevel 4, .trace (ascii "d"), .close, .log 0 (ascii "e")]

/-- Events below and above the threshold while no journal, and then one, is open. -/
theorem Session.journal_of_sampleCalls :
    (run {} sampleCalls).errors =
        ascii "WARNING: b\n" ++ ascii "2000-01-01 00:00:00 DEBUG: d\n" ++ ascii "e" ∧
      Grows (ascii "2000-01-01 00:00:00 ERROR: WARNING: b\n" ++
          ascii "2000-01-01 00:00:00 DEBUG: d\n") none
        ((run {} sampleCalls).files.get? [ascii "logs", ascii "run.log"]) := by
  have orderly : ∀ step ∈ history {} sampleCalls, Orderly step := by decide +kernel
  obtain ⟨errors, grows, -⟩ := Session.journal_of_calls (.of_closed rfl) orderly
  have shown : (history {} sampleCalls).flatMap displayed =
      ascii "WARNING: b\n" ++ ascii "2000-01-01 00:00:00 DEBUG: d\n" ++ ascii "e" := by
    decide +kernel
  have added : (history {} sampleCalls).flatMap (written [ascii "logs", ascii "run.log"]) =
      ascii "2000-01-01 00:00:00 ERROR: WARNING: b\n" ++
        ascii "2000-01-01 00:00:00 DEBUG: d\n" := by
    decide +kernel
  constructor
  · rw [errors, shown, List.nil_append]
  · rw [← added]
    exact grows [ascii "logs", ascii "run.log"]

/-- A long text is cut where the record, with the twenty bytes of its stamp, is full. -/
example : (displayed ({}, .log 0 (List.replicate 2000 97))).length = 1003 := by decide +kernel

/-- Not only the two most urgent named levels are shown without a head: so is any below them. -/
theorem Session.journal_shows_below_named_levels :
    ¬ ∀ (session : Session) (level : Int) (text : Bytes), level ≤ session.journal.level →
      ((JournalCall.log level text).perform session).2.errors = session.errors ++
        (let head := session.journal.stamp ++ Journal.tag level
         let record := (head ++ text.beforeNul).take 1023
         if level = 0 ∨ level = 1 then record.drop head.length
         else if 2 < session.journal.level then record
         else []) := by
  intro claimed
  exact absurd (claimed {} (-1) (ascii "x") (by decide)) (by decide +kernel)

end StoreAudit
