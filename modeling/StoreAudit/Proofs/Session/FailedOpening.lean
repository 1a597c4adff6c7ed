import StoreAudit.Proofs.Session.Journal

/-!
# Journal files that cannot be opened

A journal that has a file open refuses another one, and the refusal jams it: the error stream goes
on as before, but the file takes no more records. Every other failure to open a file goes unnoticed
by the calls that follow it (`Session.failed_open_unnoticed_iff`). What calls write is the same in
sessions with the same journal, whatever their files, and a journal without a file writes none.
-/

namespace StoreAudit

/-- What calls write: bytes for the open file, and bytes on the error stream. -/
structure JournalOutput where
  kept : Bytes
  shown : Bytes
  deriving DecidableEq

namespace JournalSink

/-- The sink after it refused another file. -/
def jam : JournalSink → JournalSink
  | closed => closed
  | file place | jammed place => jammed place

/-- The files after bytes for the open one. -/
def receive (files : FileTree) (data : Bytes) : JournalSink → FileTree
  | file place => files.append place data
  | closed | jammed _ => files

private theorem jam_ne_file (sink : JournalSink) (place : Place) : sink.jam ≠ file place := by
  cases sink <;> nofun

/-- Bytes in two pieces leave what they leave at once. -/
theorem get?_receive_append (sink : JournalSink) (files : FileTree) (data more : Bytes)
    (place : Place) :
    (sink.receive (sink.receive files data) more).get? place =
      (sink.receive files (data ++ more)).get? place := by
  cases sink with
  | closed | jammed _ => rfl
  | file target =>
      simp only [receive, FileTree.get?_append]
      cases files.get? place with
      | none => rfl
      | some entry =>
          cases entry with
          | file old =>
              by_cases same : place = target
              · simp [same]
              · simp [same]
          | directory | sealedDirectory | link _ | device _ => rfl

private theorem get?_receive_nil (sink : JournalSink) (files : FileTree) (place : Place) :
    (sink.receive files []).get? place = files.get? place := by
  cases sink with
  | closed | jammed _ => rfl
  | file target =>
      rw [receive, FileTree.get?_append]
      cases files.get? place with
      | none => rfl
      | some entry => cases entry <;> simp

end JournalSink

namespace Journal

private theorem write_eq_receive (journal : Journal) (files : FileTree) (level : Int) (text : Bytes)
    : journal.write files level text = journal.sink.receive files (journal.kept level text) := by
  unfold write
  cases journal.sink <;> rfl

/-- What an event shows depends on the level and the clock alone. -/
theorem shown_congr {first second : Journal} (sameLevel : first.level = second.level)
    (sameStamp : first.stamp = second.stamp) (level : Int) (text : Bytes) :
    first.shown level text = second.shown level text := by
  obtain ⟨_, _, _⟩ := first
  obtain ⟨_, _, _⟩ := second
  cases sameLevel
  cases sameStamp
  rfl

private theorem kept_of_noFile {journal : Journal} (noFile : ∀ place, journal.sink ≠ .file place)
    (level : Int) (text : Bytes) : journal.kept level text = [] := by
  unfold kept
  split
  · split
    · rename_i place sink
      exact absurd sink (noFile place)
    · rfl
    · rfl
  · rfl

/-- A failure jams the journal if the file itself was refused, and otherwise leaves it alone. -/
theorem openAt_of_failure {journal after : Journal} {files later : FileTree} {path : Bytes}
    {failure : OpenFailure} (fails : journal.openAt files path = (after, later, some failure)) :
    after = { journal with
      sink := if failure = .noFile then journal.sink.jam else journal.sink } := by
  unfold openAt at fails
  split at fails
  · cases fails
    rfl
  dsimp only at fails
  split at fails
  · cases fails
    rfl
  · cases sink : journal.sink with
    | file place | jammed place =>
        simp only [sink] at fails
        cases fails
        rfl
    | closed =>
        simp only [sink] at fails
        split at fails
        · cases fails
          rw [if_pos rfl, JournalSink.jam, ← sink]
        · cases fails

end Journal

namespace JournalCall

/-- No call is to open a file. -/
def OpensNothing (calls : List JournalCall) : Prop := ∀ call ∈ calls, call.target? = none

/-- What a call hands to the open file. -/
def handed : Session × JournalCall → Bytes
  | (before, call) =>
    match call.event? with
    | some (level, text) => before.journal.kept level text
    | none => []

/-- What a run of calls writes. -/
def output (session : Session) (calls : List JournalCall) : JournalOutput where
  kept := (history session calls).flatMap handed
  shown := (history session calls).flatMap displayed

/-- The journal after a call that opens no file. -/
def adjust (journal : Journal) : JournalCall → Journal
  | setLevel level => { journal with level := level }
  | tick stamp => { journal with stamp := stamp }
  | close => journal.close
  | log _ _ | warning _ | message _ | note _ | trace _ | openAt _ => journal

variable {call : JournalCall} {calls : List JournalCall}

private theorem journal_perform (opensNothing : call.target? = none) (session : Session) :
    (call.perform session).2.journal = call.adjust session.journal := by
  cases call with
  | openAt path => cases opensNothing
  | setLevel _ | log _ _ | warning _ | message _ | note _ | trace _ | close | tick _ => rfl

private theorem displayed_of_opensNothing (opensNothing : call.target? = none) (session : Session) :
    displayed (session, call) =
      match call.event? with
      | some (level, text) => session.journal.shown level text
      | none => [] := by
  cases event : call.event? with
  | none => simp only [displayed, event, opensNothing]
  | some happened =>
      obtain ⟨level, text⟩ := happened
      have shows := perform_errors call session
      rw [perform_of_event event] at shows
      exact (List.append_cancel_left shows).symm

/-- Calls write the same in sessions that are alike in some way, if being alike makes each call
write the same and leaves the sessions alike. -/
theorem flatMap_history_congr (alike : Session → Session → Prop)
    (writes : Session × JournalCall → Bytes)
    (step : ∀ {first second : Session} {call : JournalCall}, call.target? = none →
      alike first second → writes (first, call) = writes (second, call) ∧
        alike (call.perform first).2 (call.perform second).2)
    {first second : Session} (opensNothing : OpensNothing calls) (start : alike first second) :
    (history first calls).flatMap writes = (history second calls).flatMap writes := by
  induction calls generalizing first second with
  | nil => rfl
  | cons call rest ih =>
      obtain ⟨opensNothing, others⟩ := List.forall_mem_cons.mp opensNothing
      obtain ⟨now, further⟩ := step opensNothing start
      rw [history, history, List.flatMap_cons, List.flatMap_cons, now, ih others further]

/-- What is shown depends on the level and the clock alone. -/
theorem shown_output_congr {first second : Session} (opensNothing : OpensNothing calls)
    (level : first.journal.level = second.journal.level)
    (stamp : first.journal.stamp = second.journal.stamp) :
    (output first calls).shown = (output second calls).shown := by
  refine flatMap_history_congr (fun first second => first.journal.level = second.journal.level ∧
    first.journal.stamp = second.journal.stamp) displayed ?_ opensNothing ⟨level, stamp⟩
  rintro first second call opensNothing ⟨level, stamp⟩
  refine ⟨?_, ?_⟩
  · simp only [displayed_of_opensNothing opensNothing, Journal.shown_congr level stamp]
  · rw [journal_perform opensNothing, journal_perform opensNothing]
    cases call with
    | setLevel _ => exact ⟨rfl, stamp⟩
    | tick _ => exact ⟨level, rfl⟩
    | close | log _ _ | warning _ | message _ | note _ | trace _ | openAt _ =>
        exact ⟨level, stamp⟩

/-- What is kept depends on the journal alone. -/
theorem kept_output_congr {first second : Session} (opensNothing : OpensNothing calls)
    (same : first.journal = second.journal) :
    (output first calls).kept = (output second calls).kept := by
  refine flatMap_history_congr (fun first second => first.journal = second.journal) handed ?_
    opensNothing same
  intro first second call opensNothing same
  refine ⟨?_, ?_⟩
  · simp only [handed, same]
  · rw [journal_perform opensNothing, journal_perform opensNothing, same]

/-- A journal that has no open file stays so. -/
theorem noFile_perform {session : Session} (opensNothing : call.target? = none)
    (noFile : ∀ place, session.journal.sink ≠ .file place) (place : Place) :
    (call.perform session).2.journal.sink ≠ .file place := by
  rw [journal_perform opensNothing]
  cases call with
  | close => nofun
  | setLevel _ | tick _ | log _ _ | warning _ | message _ | note _ | trace _ | openAt _ =>
      exact noFile place

private theorem kept_output_of_noFile {session : Session} (opensNothing : OpensNothing calls)
    (noFile : ∀ place, session.journal.sink ≠ .file place) : (output session calls).kept = [] := by
  induction calls generalizing session with
  | nil => rfl
  | cons call rest ih =>
      obtain ⟨opensNothing, others⟩ := List.forall_mem_cons.mp opensNothing
      have now : handed (session, call) = [] := by
        rw [handed]
        split
        · exact Journal.kept_of_noFile noFile _ _
        · rfl
      have later := ih others (noFile_perform opensNothing noFile)
      exact congrArg₂ (· ++ ·) now later

/-- What a run writes is what it leaves: the error stream goes on with what it shows, and the file
that is open at its start with what it keeps. -/
theorem run_output (session : Session) (opensNothing : OpensNothing calls) :
    (run session calls).errors = session.errors ++ (output session calls).shown ∧
      ∀ place, (run session calls).files.get? place =
        (session.journal.sink.receive session.files (output session calls).kept).get? place := by
  refine ⟨run_errors session calls, fun place => ?_⟩
  induction calls generalizing session with
  | nil => exact (session.journal.sink.get?_receive_nil session.files place).symm
  | cons call rest ih =>
      obtain ⟨opensNothing, others⟩ := List.forall_mem_cons.mp opensNothing
      rw [run_cons, ih _ others]
      have kept : (output session (call :: rest)).kept =
          handed (session, call) ++ (output (call.perform session).2 rest).kept := rfl
      rw [kept]
      cases event : call.event? with
      | some happened =>
          obtain ⟨level, text⟩ := happened
          have hands : handed (session, call) = session.journal.kept level text := by
            simp only [handed, event]
          rw [perform_of_event event, hands, Journal.write_eq_receive,
            JournalSink.get?_receive_append]
      | none =>
          have hands : handed (session, call) = [] := by simp only [handed, event]
          rw [hands, List.nil_append]
          cases call with
          | setLevel _ | tick _ => rfl
          | close =>
              have nothing : (output (close.perform session).2 rest).kept = [] :=
                kept_output_of_noFile others nofun
              rw [nothing, JournalSink.get?_receive_nil, JournalSink.get?_receive_nil]
              rfl
          | openAt _ => cases opensNothing
          | log _ _ | warning _ | message _ | note _ | trace _ => cases event

/-- An event that is not above the level leaves bytes in the open file, unless it has no text. -/
theorem kept_output_log_ne_nil {session : Session} {place : Place} {level : Int} {text : Bytes}
    (isOpen : session.journal.sink = .file place) (admitted : level ≤ session.journal.level)
    (nonempty : text.beforeNul ≠ []) : (output session [.log level text]).kept ≠ [] := by
  have kept : (output session [.log level text]).kept = session.journal.record level text := by
    simp [output, history, handed, event?, Journal.kept, Journal.admits, isOpen, admitted]
  rw [kept, Journal.record, ne_eq, List.take_eq_nil_iff, List.append_eq_nil_iff]
  rintro (noRoom | ⟨-, empty⟩)
  · exact absurd noRoom (by decide)
  · exact nonempty empty

/-- The journal after a failure to open a file. -/
theorem journal_of_failure {session : Session} {path : Bytes} {failure : Journal.OpenFailure}
    (fails : (session.journal.openAt session.files path).2.2 = some failure) :
    ((openAt path).perform session).2.journal = { session.journal with
      sink := if failure = .noFile then session.journal.sink.jam else session.journal.sink } := by
  rw [perform_openAt]
  rcases result : session.journal.openAt session.files path with ⟨after, later, outcome⟩
  rw [result] at fails
  obtain rfl : outcome = some failure := fails
  exact Journal.openAt_of_failure result

/-- After a failure to open a file, calls show what they would have shown without it, and keep what
they would have kept unless the file itself was refused. -/
theorem output_of_failure {session : Session} {path : Bytes} {failure : Journal.OpenFailure}
    (fails : (session.journal.openAt session.files path).2.2 = some failure)
    (opensNothing : OpensNothing calls) :
    output ((openAt path).perform session).2 calls =
      { kept := if failure = .noFile then [] else (output session calls).kept
        shown := (output session calls).shown } := by
  have journal := journal_of_failure fails
  have shown : (output ((openAt path).perform session).2 calls).shown =
      (output session calls).shown :=
    shown_output_congr opensNothing (by rw [journal]) (by rw [journal])
  have kept : (output ((openAt path).perform session).2 calls).kept =
      if failure = .noFile then [] else (output session calls).kept := by
    split
    · rename_i refused
      apply kept_output_of_noFile opensNothing
      rw [journal, if_pos refused]
      exact session.journal.sink.jam_ne_file
    · rename_i early
      apply kept_output_congr opensNothing
      rw [journal, if_neg early]
  rw [← shown, ← kept]

end JournalCall

open JournalCall

/-- **When a failure to open a journal file goes unnoticed.** Calls that open no file write, after
the failure, what they would have written without it, whatever they are, exactly if no file was open
or the failure came before the file itself was tried. If neither is so, the open file gets nothing
more, while the error stream gets the same as ever. What calls write is what they leave, in every
session. -/
theorem Session.failed_open_unnoticed_iff {session : Session} {path : Bytes}
    {failure : Journal.OpenFailure}
    (fails : (session.journal.openAt session.files path).2.2 = some failure) :
    ((∀ calls, OpensNothing calls →
        output ((JournalCall.openAt path).perform session).2 calls = output session calls) ↔
      ((∀ place, session.journal.sink ≠ .file place) ∨ failure = .noDirectory)) ∧
    (∀ calls, OpensNothing calls →
      output ((JournalCall.openAt path).perform session).2 calls =
        { kept := if failure = .noFile then [] else (output session calls).kept
          shown := (output session calls).shown }) ∧
    ∀ start calls, OpensNothing calls →
      (run start calls).errors = start.errors ++ (output start calls).shown ∧
        ∀ place, (run start calls).files.get? place =
          (start.journal.sink.receive start.files (output start calls).kept).get? place := by
  have after : ∀ calls, OpensNothing calls → _ := fun _ => output_of_failure fails
  refine ⟨⟨fun unnoticed => ?_, fun harmless calls opensNothing => ?_⟩, after,
    fun start _ => run_output start⟩
  · cases failure with
    | noDirectory => exact .inr rfl
    | noFile =>
        refine .inl fun place isOpen => ?_
        -- One more event at the level of the moment would be missing from the file.
        have event : OpensNothing [.log session.journal.level [1]] :=
          List.forall_mem_singleton.mpr rfl
        have same := (after _ event).symm.trans (unnoticed _ event)
        exact kept_output_log_ne_nil isOpen (Int.le_refl _) (by decide)
          (congrArg JournalOutput.kept same).symm
  · rw [after calls opensNothing]
    rcases harmless with noFile | rfl
    · rw [kept_output_of_noFile opensNothing noFile, ite_self,
        ← kept_output_of_noFile opensNothing noFile]
    · rw [if_neg nofun]

/-- A session that has one file open and is about to be asked for another one. -/
def sampleSession : Session := run {} [.openAt (ascii "logs/run.log"), .note (ascii "a")]

/-- A journal that is open, and another one that cannot be opened. -/
theorem Session.failed_open_noticed_of_open_file :
    (sampleSession.journal.openAt sampleSession.files (ascii "other.log")).2.2 = some .noFile ∧
      ¬ ∀ calls, OpensNothing calls →
        output ((JournalCall.openAt (ascii "other.log")).perform sampleSession).2 calls =
          output sampleSession calls := by
  have fails : (sampleSession.journal.openAt sampleSession.files (ascii "other.log")).2.2 =
      some .noFile := by decide +kernel
  have isOpen : sampleSession.journal.sink = .file [ascii "logs", ascii "run.log"] := by
    decide +kernel
  refine ⟨fails, fun unnoticed => ?_⟩
  rcases (Session.failed_open_unnoticed_iff fails).1.mp unnoticed with noFile | early
  · exact noFile _ isOpen
  · cases early

/-- A failure to open a file is not always without consequences: the file that was open before loses
the records of the events after it. -/
theorem Session.failed_open_loses_record :
    ¬ ∀ (earlier calls : List JournalCall) (path : Bytes),
      ((run {} earlier).journal.openAt (run {} earlier).files path).2.2 ≠ none →
      (∀ call ∈ calls, call = .close ∨ ∃ level text, call = .log level text) →
      output (run {} (earlier ++ [.openAt path])) calls = output (run {} earlier) calls := by
  intro claimed
  have logs : ∀ call ∈ [JournalCall.log 1 (ascii "x")],
      call = .close ∨ ∃ level text, call = .log level text :=
    List.forall_mem_singleton.mpr (.inr ⟨_, _, rfl⟩)
  have same := claimed [.openAt (ascii "logs/run.log")] _ (ascii "other.log") (by decide +kernel)
    logs
  exact absurd same (by decide +kernel)

end StoreAudit
