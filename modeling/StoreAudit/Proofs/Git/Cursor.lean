import StoreAudit.Git.Child
import StoreAudit.Proofs.Git.Reader
import StoreAudit.Proofs.Session.Step

/-!
# Reading call by call

The output of a git command is read by calls for a line or for a number of bytes, in any order. They
get what a cursor gets that moves over the whole output (`Child.reads_follow_cursor`): in how many
chunks the output arrives, and where these chunks end, cannot be told from the answers, although the
buffer is cleared of what was handed out whenever a chunk is read. A call for more bytes than there
are fails and moves nothing. Calls for nothing but lines get the parts that the output is cut into
(`Child.answers_lines`), so a listing may be cut as a whole.
-/

namespace StoreAudit

open Audit

/-- A call that reads from the output of a command. -/
inductive ReadCall where
  /-- For what comes before the next delimiter. -/
  | line (delimiter : UInt8)
  /-- For a number of bytes. -/
  | exact (count : Nat)
  deriving DecidableEq

/-- A text, and how many of its bytes have been given out. -/
structure Cursor where
  text : Bytes
  position : Nat := 0

namespace Cursor

/-- What has not been given out yet. -/
def rest (cursor : Cursor) : Bytes := cursor.text.drop cursor.position

/-- The cursor further on in its text. -/
def advance (cursor : Cursor) (count : Nat) : Cursor :=
  { cursor with position := cursor.position + count }

/-- What a call is given, and where the cursor stands then. A line ends before the next delimiter,
which is passed over, or with the text, if some of it is left. A number of bytes is given as a whole
or not at all. -/
def read (cursor : Cursor) : ReadCall → Option Bytes × Cursor
  | .line delimiter =>
    let line := cursor.rest.takeWhile (· != delimiter)
    if delimiter ∈ cursor.rest then (some line, cursor.advance (line.length + 1))
    else if cursor.rest = [] then (none, cursor)
    else (some line, cursor.advance line.length)
  | .exact count =>
    if count ≤ cursor.rest.length then (some (cursor.rest.take count), cursor.advance count)
    else (none, cursor)

/-- What the caller is told where a call is given nothing: that the text is at its end, or that the
command ended too early. -/
def refusal (command : Bytes) (session : Session) : ReadCall → Except Failure (Option Bytes)
  | .line _ => .ok none
  | .exact _ => .error (if session.signal.requested then .interrupted else .shortRead command)

/-- What the caller is told by a call. -/
def answer (command : Bytes) (cursor : Cursor) (call : ReadCall) (session : Session) :
    Except Failure (Option Bytes) :=
  match (cursor.read call).1 with
  | some data => .ok (some data)
  | none => refusal command session call

/-- What callers are told by calls one after the other, each with the session it is made in. -/
def answers (command : Bytes) (cursor : Cursor) :
    List (ReadCall × Session) → List (Except Failure (Option Bytes))
  | [] => []
  | (call, session) :: more =>
    cursor.answer command call session :: (cursor.read call).2.answers command more

variable {cursor : Cursor} {delimiter : UInt8}

private theorem rest_advance (cursor : Cursor) (count : Nat) :
    (cursor.advance count).rest = cursor.rest.drop count := by
  simp [rest, advance, List.drop_drop]

private theorem read_line_of_firstLine {line after : Bytes}
    (first : FirstLine delimiter cursor.rest line after) :
    ∃ moved, cursor.read (.line delimiter) = (some line, moved) ∧ moved.rest = after := by
  have kept : ∀ byte ∈ line, (byte != delimiter) = true := by
    intro byte member
    exact bne_iff_ne.mpr fun same => first.line_whole (same ▸ member)
  generalize shape : cursor.rest = text at first
  cases first with
  | ended absent =>
      have taken : cursor.rest.takeWhile (· != delimiter) = line := by
        rw [shape, List.takeWhile_append_of_pos kept]
        simp
      refine ⟨cursor.advance (line.length + 1), ?_, ?_⟩
      · rw [read, taken, if_pos (by simp [shape])]
      · rw [rest_advance, shape, ← List.drop_drop, List.drop_left]
        rfl
  | cut absent nonempty =>
      have taken : cursor.rest.takeWhile (· != delimiter) = line := by
        rw [shape, List.takeWhile_eq_self_iff.mpr kept]
      refine ⟨cursor.advance line.length, ?_, ?_⟩
      · rw [read, taken, if_neg (by rwa [shape]), if_neg (by rwa [shape])]
      · rw [rest_advance, shape, List.drop_length]

private theorem read_line_of_nil (empty : cursor.rest = []) :
    cursor.read (.line delimiter) = (none, cursor) := by
  simp [read, empty]

/-- Calls for lines get the parts that the rest is cut into, and nothing from then on. -/
theorem answers_lines (command : Bytes) (cursor : Cursor) (delimiter : UInt8)
    (sessions : List Session) :
    cursor.answers command (sessions.map fun session => (.line delimiter, session)) =
      (((Bytes.split delimiter cursor.rest).map some ++ List.replicate sessions.length none).take
        sessions.length).map Except.ok := by
  induction sessions generalizing cursor with
  | nil => rfl
  | cons session more ih =>
      rw [List.map_cons, answers, ih, answer]
      by_cases empty : cursor.rest = []
      · rw [read_line_of_nil empty, empty, Bytes.split_nil]
        simp [refusal, List.replicate_succ]
      · obtain ⟨line, after, first⟩ := FirstLine.exists_of_ne_nil delimiter empty
        obtain ⟨moved, given, left⟩ := read_line_of_firstLine first
        have enough : more.length ≤
            ((Bytes.split delimiter after).map some ++ List.replicate more.length none).length := by
          simp
        rw [given, first.split, left, List.map_cons, List.cons_append, List.length_cons,
          List.take_succ_cons, List.replicate_succ', ← List.append_assoc,
          List.take_append_of_le_length enough]
        rfl

end Cursor

namespace PipeReader

variable {reader : PipeReader} {cursor : Cursor}

/-- What a call reads. -/
def read (reader : PipeReader) : ReadCall → Option Bytes × PipeReader
  | .line delimiter => reader.readLine delimiter
  | .exact count => reader.readExact count

/-- A call gives what the cursor gives, and leaves what the cursor leaves. -/
theorem read_eq (same : reader.remaining = cursor.rest) (call : ReadCall) :
    (reader.read call).1 = (cursor.read call).1 ∧
      (reader.read call).2.remaining = (cursor.read call).2.rest := by
  cases call with
  | line delimiter =>
      rcases read : reader.readLine delimiter with ⟨_ | line, later⟩
      · obtain ⟨empty, left⟩ := remaining_of_readLine read
        rw [same] at empty
        rw [PipeReader.read, read, Cursor.read_line_of_nil empty]
        exact ⟨rfl, left.trans empty.symm⟩
      · have first := firstLine_of_readLine read
        rw [same] at first
        obtain ⟨moved, given, left⟩ := Cursor.read_line_of_firstLine first
        rw [PipeReader.read, read, given]
        exact ⟨rfl, left.symm⟩
  | exact count =>
      rcases read : reader.readExact count with ⟨_ | data, later⟩
      · obtain ⟨short, left⟩ := remaining_of_readExact_none read
        rw [same] at short left
        rw [PipeReader.read, read, Cursor.read, if_neg (Nat.not_le.mpr short)]
        exact ⟨rfl, left⟩
      · obtain ⟨rfl, parts⟩ := remaining_of_readExact read
        rw [same] at parts
        have enough : data.length ≤ cursor.rest.length := by simp [parts]
        rw [PipeReader.read, read, Cursor.read, if_pos enough]
        refine ⟨by simp [parts], ?_⟩
        rw [Cursor.rest_advance, parts, List.drop_left]

end PipeReader

namespace Child

variable {child : Child} {cursor : Cursor}

/-- Reads from the output as a call asks. -/
def read (child : Child) : ReadCall → Except PipeError (Option Bytes × Child)
  | .line delimiter => child.readLine delimiter
  | .exact count => child.readExact count

/-- What the caller is told of what was read: bytes that are not there are a failure. -/
def tell (child : Child) (given : Option Bytes) : ReadCall → Audit (Option Bytes)
  | .line _ => pure given
  | .exact _ => do
    let data ← child.demand given
    pure (some data)

/-- What callers are told by calls one after the other, each with the session it is made in: what
else happens between two calls, and what the user asks for, is not up to the reader. A caller may go
on after a call that failed. -/
def answers (child : Child) : List (ReadCall × Session) → List (Except Failure (Option Bytes))
  | [] => []
  | (call, session) :: more =>
    match child.read call with
    | .error problem => .error (child.failureOf problem) :: child.answers more
    | .ok (given, heard) => (heard.tell given call session).1 :: heard.answers more

/-- A started child reads what its reader reads. -/
theorem read_of_started (started : child.started = true) (call : ReadCall) :
    child.read call =
      .ok ((child.output.read call).1, child.listen (child.output.read call).2) := by
  cases call <;> simp [read, PipeReader.read, readLine, readExact, isReadable, started]

private theorem tell_none (child : Child) (call : ReadCall) (session : Session) :
    (child.tell none call session).1 = Cursor.refusal child.command session call := by
  cases call with
  | line delimiter => rfl
  | exact count =>
      have failed := failUnlessInterrupted_apply (α := Bytes) (.shortRead child.command) session
      rw [tell, demand, bind_apply_of_error failed, Cursor.refusal]

private theorem tell_eq (child : Child) (cursor : Cursor) (call : ReadCall) (session : Session) :
    (child.tell (cursor.read call).1 call session).1 =
      cursor.answer child.command call session := by
  unfold Cursor.answer
  cases (cursor.read call).1 with
  | none => exact tell_none child call session
  | some data => cases call <;> rfl

private theorem answers_eq (started : child.started = true)
    (same : child.output.remaining = cursor.rest) (calls : List (ReadCall × Session)) :
    child.answers calls = cursor.answers child.command calls := by
  induction calls generalizing child cursor with
  | nil => rfl
  | cons first more ih =>
      obtain ⟨call, session⟩ := first
      obtain ⟨given, left⟩ := PipeReader.read_eq same call
      let heard := child.listen (child.output.read call).2
      have told := heard.tell_eq cursor call session
      have further : heard.answers more = (cursor.read call).2.answers child.command more :=
        ih (show heard.started = true from started) left
      rw [answers, read_of_started started, given]
      exact congrArg₂ List.cons told further

/-- Calls for lines get the parts that the output is cut into, and nothing from then on. -/
theorem answers_lines (started : child.started = true) (delimiter : UInt8)
    (sessions : List Session) :
    child.answers (sessions.map fun session => (.line delimiter, session)) =
      (((Bytes.split delimiter child.output.remaining).map some ++
        List.replicate sessions.length none).take sessions.length).map Except.ok := by
  have whole : child.output.remaining = ({ text := child.output.remaining } : Cursor).rest := rfl
  rw [answers_eq started whole, Cursor.answers_lines]
  rfl

/-- **What is read does not depend on the chunks.** In whatever chunks the output of a command
arrives, any calls get what a cursor at the start of the whole output gives them. In particular,
calls for nothing but lines get the parts that the output is cut into, which are the records of a
listing. -/
theorem reads_follow_cursor {text : Bytes} {chunks : List Bytes} (started : child.started = true)
    (arrives : child.output = { arriving := chunks }) (whole : chunks.flatten = text) :
    (∀ calls : List (ReadCall × Session),
      child.answers calls = Cursor.answers child.command { text } calls) ∧
    ∀ (delimiter : UInt8) (sessions : List Session),
      child.answers (sessions.map fun session => (.line delimiter, session)) =
        (((Bytes.split delimiter text).map some ++ List.replicate sessions.length none).take
          sessions.length).map Except.ok := by
  have all : child.output.remaining = text := by
    rw [arrives, ← whole]
    rfl
  have same : child.output.remaining = ({ text } : Cursor).rest := all
  refine ⟨answers_eq started same, fun delimiter sessions => ?_⟩
  rw [answers_lines started, all]

/-- Lines and a zero byte, in chunks that end in the middle of a line and right after one. -/
def sampleChunks : List Bytes :=
  [ascii "ab", ascii "c\nd", ascii "ef\n", ascii "g" ++ [0], ascii "h"]

def sampleReads : List (ReadCall × Session) :=
  [(.line Ascii.newline, {}), (.exact 2, {}), (.exact 7, {}),
    (.exact 7, { signal := Signal.raise {} }), (.line 0, {}), (.exact 0, {}), (.line 0, {}),
    (.line Ascii.newline, {})]

/-- Chunks that cut lines and counted bytes anywhere. -/
theorem reads_follow_cursor_of_five_chunks :
    let child : Child :=
      { idle ⟨[], {}⟩ [ascii "status"] with
        started := true, output := { arriving := sampleChunks } }
    child.answers sampleReads =
      [.ok (some (ascii "abc")), .ok (some (ascii "de")), .error (.shortRead (ascii "git status")),
        .error .interrupted, .ok (some (ascii "f\ng")), .ok (some []), .ok (some (ascii "h")),
        .ok none] :=
  ((reads_follow_cursor rfl rfl rfl).1 sampleReads).trans (by decide +kernel)

end Child

end StoreAudit
