import StoreAudit.Proofs.Git.Endings
import StoreAudit.Proofs.Git.Reader
import StoreAudit.Proofs.Text.Decimal
import StoreAudit.Proofs.Text.Split
import StoreAudit.Scan.Item

/-!
# Answers to names

An object base holds what git has under names. A look-up command that answers from a base is in step
with whoever asks: each question gets its own answer (`Lookup.InStep.get`), and a name that git has
nothing under is a missing object (`Lookup.InStep.get_missing`).
-/

namespace StoreAudit

open Audit

/-- An object that git has. -/
structure StoredObject where
  digest : Bytes
  type : Bytes
  content : Bytes
  /-- The digest and the type are words on a line. -/
  digestWord : Ascii.space ∉ digest ∧ Ascii.newline ∉ digest := by decide +kernel
  typeWord : Ascii.space ∉ type ∧ Ascii.newline ∉ type := by decide +kernel
  /-- Sizes are words of the machine. -/
  fits : content.length < 2 ^ 64 := by decide +kernel

/-- A file that git has. -/
def StoredObject.file (digest content : Bytes)
    (digestWord : Ascii.space ∉ digest ∧ Ascii.newline ∉ digest := by decide +kernel)
    (fits : content.length < 2 ^ 64 := by decide +kernel) : StoredObject where
  digest := digest
  type := ascii "blob"
  content := content
  digestWord := digestWord
  fits := fits

/-- What git has under names. -/
structure ObjectBase where
  find? : Bytes → Option StoredObject
  /-- A name is on one line. -/
  onLine : ∀ name object, find? name = some object → Ascii.newline ∉ name

/-- The base with these objects, each under its name. -/
def ObjectBase.ofList (objects : List (Bytes × StoredObject))
    (onLine : ∀ named ∈ objects, Ascii.newline ∉ named.1) : ObjectBase where
  find? := fun name => List.lookup name objects
  onLine name object found := by
    obtain ⟨before, after, same, -⟩ := List.lookup_eq_some_iff.mp found
    exact onLine (name, object) (by simp [same])

/-- A base made of a list has the objects of the list. -/
@[simp] theorem ObjectBase.find?_ofList (objects : List (Bytes × StoredObject))
    (onLine : ∀ named ∈ objects, Ascii.newline ∉ named.1) (name : Bytes) :
    (ofList objects onLine).find? name = objects.lookup name := rfl

/-- The answer to a name. -/
def ObjectBase.reply (base : ObjectBase) (mode : LookupMode) (name : Bytes) : LookupReply :=
  match base.find? name with
  | some object => (GitObject.stored name object.digest object.type object.content).reply mode
  | none => Transcript.missing name

/-- An object as a transcript has it. -/
def StoredObject.entry (named : Bytes × StoredObject) : GitObject :=
  .stored named.1 named.2.digest named.2.type named.2.content

private theorem StoredObject.find?_entry (objects : List (Bytes × StoredObject)) (name : Bytes) :
    (objects.map entry).find? (fun object => object.name = name) =
      (objects.lookup name).map fun object => entry (name, object) := by
  induction objects with
  | nil => rfl
  | cons named rest ih =>
      obtain ⟨other, object⟩ := named
      rw [List.map_cons, List.find?_cons, List.lookup_cons, ih]
      by_cases this : other = name
      · simp [this, entry, GitObject.stored]
      · have apart : (name == other) = false := beq_false_of_ne (Ne.symm this)
        simp [this, apart, entry, GitObject.stored]

/-- A transcript with these objects answers as their base says. -/
theorem ObjectBase.lookup_ofList {transcript : Transcript} {objects : List (Bytes × StoredObject)}
    (same : transcript.objects = objects.map StoredObject.entry)
    (onLine : ∀ named ∈ objects, Ascii.newline ∉ named.1) (mode : LookupMode) (name : Bytes) :
    transcript.lookup mode name = (ofList objects onLine).reply mode name := by
  rw [Transcript.lookup, same, StoredObject.find?_entry, reply, find?_ofList]
  cases List.lookup name objects <;> rfl

namespace Child

/-- A look-up command that has answered all it was asked, and what of its answers is still to be
read. -/
structure Serves (child : Child) (repository : Repository) (mode : LookupMode)
    (left : Bytes) : Prop where
  repository : child.repository = repository
  arguments : child.arguments = lookupArguments mode
  started : child.started = true
  reaction : child.reaction = .lookup mode []
  isOpen : child.output.ended = false
  left : child.output.remaining = left
  input : child.inputOpen = true
  ending : child.ending = none
  errorText : child.errorText = []
  unreaped : child.unreaped = true

namespace Serves

variable {child : Child} {repository : Repository} {mode : LookupMode} {left : Bytes}

private theorem launch (repository : Repository) (mode : LookupMode) (index : Nat) :
    ((idle repository (lookupArguments mode)).launch index).Serves repository mode [] := by
  have lookup : lookupMode? ((lookupArguments mode).map Bytes.beforeNul) = some mode := by
    cases mode <;> decide
  constructor <;> simp [Child.launch, idle, renewed, lookup, PipeReader.remaining_of_open,
    PipeReader.pending]

private theorem listen (serves : child.Serves repository mode left) {later : PipeReader}
    (isOpen : later.ended = false) :
    (child.listen later).Serves repository mode later.remaining :=
  { serves with isOpen, left := rfl }

/-- The first line of what is left is read. -/
theorem readLine {line rest : Bytes} {delimiter : UInt8}
    (serves : child.Serves repository mode (line ++ delimiter :: rest))
    (whole : delimiter ∉ line) :
    ∃ heard, child.readLine delimiter = .ok (some line, heard) ∧
      heard.Serves repository mode rest := by
  have spec := child.output.readLine_spec delimiter
  rw [serves.left] at spec
  rcases read : child.output.readLine delimiter with ⟨_ | got, later⟩ <;> rw [read] at spec
  · exact absurd spec.1 (by simp)
  obtain ⟨first, stays⟩ := spec
  obtain ⟨rfl, same⟩ := first.unique (.ended whole rest)
  refine ⟨child.listen later, ?_, same ▸ serves.listen ((stays (by simp)).trans serves.isOpen)⟩
  simp [Child.readLine, isReadable, serves.started, read]

/-- The first bytes of what is left are read. -/
theorem readExact (data rest : Bytes) (serves : child.Serves repository mode (data ++ rest)) :
    ∃ heard, child.readExact data.length = .ok (some data, heard) ∧
      heard.Serves repository mode rest := by
  have spec := child.output.readExact_spec data.length
  rw [serves.left] at spec
  rcases read : child.output.readExact data.length with ⟨_ | got, later⟩ <;> rw [read] at spec
  · exact absurd spec.1 (by simp)
  obtain ⟨length, parts, stays⟩ := spec
  obtain ⟨rfl, same⟩ := List.append_inj parts length.symm
  refine ⟨child.listen later, ?_, same ▸ serves.listen (stays.trans serves.isOpen)⟩
  simp [Child.readExact, isReadable, serves.started, read]

/-- A name that is written is answered at once. -/
theorem write (serves : child.Serves repository mode []) {name text : Bytes}
    (whole : Ascii.newline ∉ name) (reply : repository.transcript.lookup mode name = ⟨text, none⟩)
    (nonempty : text ≠ []) :
    ∃ later, child.write (name ++ [Ascii.newline]) = .ok later ∧
      later.Serves repository mode text := by
  have line : Bytes.split Ascii.newline (name ++ [Ascii.newline]) = [name] := by
    rw [Bytes.split_append_cons whole, Bytes.split_nil]
  have asked : child.write (name ++ [Ascii.newline]) =
      .ok { child.answer mode name with reaction := .lookup mode [], heard := false } := by
    simp only [Child.write, serves.input, serves.ending, receive, serves.reaction]
    simp [line]
  refine ⟨_, asked, ?_⟩
  let answered : PipeReader :=
    { child.output with arriving := child.output.arriving ++ [text] }
  have shape : child.answer mode name = { child with output := answered } := by
    simp [answer, serves.ending, serves.repository, reply, nonempty, answered]
  have left : answered.remaining = text := by
    have before := serves.left
    rw [PipeReader.remaining_of_open serves.isOpen] at before
    obtain ⟨pending, arriving⟩ := List.append_eq_nil_iff.mp before
    rw [PipeReader.remaining_of_open (show answered.ended = false from serves.isOpen),
      List.flatten_append, arriving]
    exact (congrArg (· ++ _) pending).trans (by simp)
  rw [shape]
  exact { serves with isOpen := serves.isOpen, left, reaction := rfl }

end Serves

end Child

namespace StoredObject

/-- The object as a look-up delivers it. -/
def seen (object : StoredObject) (mode : LookupMode) : FoundObject where
  digest := object.digest
  type := object.type
  size := Int64.ofNat object.content.length
  data :=
    match mode with
    | .headers => []
    | .contents => object.content

/-- The line that heads an answer. -/
def headline (object : StoredObject) : Bytes :=
  object.digest ++ Ascii.space ::
    (object.type ++ Ascii.space :: Decimal.ofNat object.content.length)

private theorem header?_headline (object : StoredObject) :
    Lookup.header? object.headline =
      some (.object object.digest object.type (UInt64.ofNat object.content.length)) := by
  have denotes := Decimal.denotes_ofNat object.content.length
  have digits : Ascii.space ∉ Decimal.ofNat object.content.length := fun member =>
    absurd (denotes.digits _ member) (by decide)
  have parts : Bytes.split Ascii.space object.headline =
      [object.digest, object.type, Decimal.ofNat object.content.length] := by
    rw [headline, Bytes.split_append_cons object.digestWord.1,
      Bytes.split_append_cons object.typeWord.1, Bytes.split_of_notMem denotes.nonempty digits]
  have size : Decimal.toWord? (Decimal.ofNat object.content.length) =
      some (UInt64.ofNat object.content.length) := by
    rw [Decimal.toWord?_eq_some_iff, UInt64.toNat_ofNat_of_lt' object.fits]
    exact denotes
  simp [Lookup.header?, parts, size]

private theorem newline_notMem_headline (object : StoredObject) : Ascii.newline ∉ object.headline :=
    by
  have digits : Ascii.newline ∉ Decimal.ofNat object.content.length := fun member =>
    absurd ((Decimal.denotes_ofNat _).digits _ member) (by decide)
  have apart : Ascii.newline ≠ Ascii.space := by decide
  simp [headline, object.digestWord.2, object.typeWord.2, digits, apart]

/-- What follows the head line in an answer. -/
def tail (object : StoredObject) : LookupMode → Bytes
  | .headers => []
  | .contents => object.content ++ [Ascii.newline]

private theorem reply_eq (object : StoredObject) (name : Bytes) (mode : LookupMode) :
    (GitObject.stored name object.digest object.type object.content).reply mode =
      ⟨object.headline ++ Ascii.newline :: object.tail mode, none⟩ := by
  cases mode <;> simp [GitObject.reply, GitObject.stored, GitObject.header, headline, tail]

end StoredObject

namespace Lookup

/-- A look-up is started, or the system refuses. -/
theorem start_apply (repository : Repository) (mode : LookupMode) (session : Session) :
    start repository mode session =
      let idle := Child.idle repository (Child.lookupArguments mode)
      match session.refusal? with
      | some failure => (.error failure, idle.announced session)
      | none =>
        (.ok { mode, child := idle.launch session.children.length }, idle.entered session) := by
  rw [start, bind_apply, Child.start_apply]
  cases session.refusal? <;> rfl

/-- A look-up whose command has answered all it was asked, and whose answers were all read. -/
structure InStep (lookup : Lookup) (repository : Repository) (mode : LookupMode) : Prop where
  sameMode : lookup.mode = mode
  running : lookup.running = true
  serves : lookup.child.Serves repository mode []

namespace InStep

variable {lookup : Lookup} {repository : Repository} {base : ObjectBase} {mode : LookupMode}
  {name : Bytes}

private theorem readAnswer_found {object : StoredObject} (sameMode : lookup.mode = mode)
    (running : lookup.running = true)
    (serves : lookup.child.Serves repository mode
      (object.headline ++ Ascii.newline :: object.tail mode)) :
    ∃ later, lookup.readAnswer = (later, .found (object.seen mode)) ∧
      later.InStep repository mode := by
  obtain ⟨heard, read, serves⟩ := serves.readLine object.newline_notMem_headline
  have size : (UInt64.ofNat object.content.length).toNat = object.content.length :=
    UInt64.toNat_ofNat_of_lt' object.fits
  cases mode with
  | headers =>
      refine ⟨{ lookup with child := heard }, ?_, ⟨sameMode, running, serves⟩⟩
      simp only [readAnswer, read, object.header?_headline, sameMode]
      rfl
  | contents =>
      obtain ⟨further, data, serves⟩ := serves.readExact object.content [Ascii.newline]
      obtain ⟨last, trailer, serves⟩ := serves.readExact [Ascii.newline] []
      refine ⟨{ lookup with child := last }, ?_, ⟨sameMode, running, serves⟩⟩
      simp only [List.length_singleton] at trailer
      simp only [readAnswer, read, object.header?_headline, sameMode, readContent, size, data,
        trailer, if_true]
      rfl

/-- A question for an object that is there gives the object, and the look-up stays in step. -/
theorem ask_found (inStep : lookup.InStep repository mode) {object : StoredObject}
    (found : base.find? name = some object)
    (reply : repository.transcript.lookup mode name = base.reply mode name) :
    ∃ later, lookup.ask name = (later, .found (object.seen mode)) ∧
      later.InStep repository mode := by
  have whole := base.onLine name object found
  rw [ObjectBase.reply, found] at reply
  obtain ⟨child, written, serves⟩ :=
    inStep.serves.write whole (reply.trans (object.reply_eq name mode)) (by simp)
  have answered : ∃ later, ({ lookup with child } : Lookup).readAnswer =
      (later, .found (object.seen mode)) ∧ later.InStep repository mode :=
    readAnswer_found inStep.sameMode inStep.running serves
  obtain ⟨later, answer, still⟩ := answered
  refine ⟨later, ?_, still⟩
  have onLine : name.contains Ascii.newline = false := by simpa using whole
  simp only [ask, onLine, written, answer]
  simp

/-- Asked for the name of an object, the look-up delivers it and is in step again. -/
theorem get (inStep : lookup.InStep repository mode) {object : StoredObject}
    (found : base.find? name = some object)
    (reply : repository.transcript.lookup mode name = base.reply mode name) :
    ∃ later, lookup.get name = pure (object.seen mode, later) ∧ later.InStep repository mode := by
  obtain ⟨later, asked, still⟩ := inStep.ask_found found reply
  refine ⟨later, ?_, still⟩
  simp [Lookup.get, get?, asked, conclude]

/-- A question for what is not there is told so, and the look-up stays in step. -/
theorem ask_missing (inStep : lookup.InStep repository mode) (absent : base.find? name = none)
    (word : Ascii.space ∉ name ∧ Ascii.newline ∉ name)
    (reply : repository.transcript.lookup mode name = base.reply mode name) :
    ∃ later, lookup.ask name = (later, .missing) ∧ later.InStep repository mode := by
  have text : name ++ ascii " missing\n" =
      (name ++ Ascii.space :: ascii "missing") ++ Ascii.newline :: [] := by
    rw [List.append_assoc]
    rfl
  rw [ObjectBase.reply, absent, Transcript.missing, text] at reply
  obtain ⟨child, written, serves⟩ := inStep.serves.write word.2 reply (by simp)
  have whole : Ascii.newline ∉ name ++ Ascii.space :: ascii "missing" := by
    rw [List.mem_append, not_or]
    exact ⟨word.2, by decide⟩
  obtain ⟨heard, read, serves⟩ := serves.readLine whole
  have parts : Bytes.split Ascii.space (name ++ Ascii.space :: ascii "missing") =
      [name, ascii "missing"] := by
    rw [Bytes.split_append_cons word.1]
    rfl
  refine ⟨{ lookup with child := heard }, ?_, ⟨inStep.sameMode, inStep.running, serves⟩⟩
  have onLine : name.contains Ascii.newline = false := by simpa using word.2
  have header : header? (name ++ Ascii.space :: ascii "missing") = some .missing := by
    simp [header?, parts]
  simp only [ask, onLine, written, readAnswer, read, header]
  simp

/-- A name that git has nothing under is a missing object. -/
theorem get_missing (inStep : lookup.InStep repository mode) (absent : base.find? name = none)
    (word : Ascii.space ∉ name ∧ Ascii.newline ∉ name)
    (reply : repository.transcript.lookup mode name = base.reply mode name) :
    lookup.get name = throw (.missingObject name) := by
  obtain ⟨later, asked, -⟩ := inStep.ask_missing absent word reply
  simp [Lookup.get, get?, asked, conclude]

/-- The command ends as its transcript says. -/
theorem close_ends (inStep : lookup.InStep repository mode) :
    Ends lookup.close (repository.lookupFailure? mode) := by
  have serves := inStep.serves
  have isOver : lookup.closed.child.IsOver (Child.lookupArguments mode)
      (repository.transcript.lookupEnd mode).errorText
      (repository.transcript.lookupEnd mode).ending := by
    constructor <;>
      simp [closed, Child.closeInput, Child.endInput, serves.input, serves.ending, serves.reaction,
        serves.arguments, serves.started, serves.isOpen, serves.errorText, serves.unreaped,
        serves.repository]
  rw [close, inStep.running, if_pos rfl]
  exact isOver.wait repository

/-- A look-up that was just opened is in step. -/
theorem inStep_launch (repository : Repository) (mode : LookupMode) (index : Nat) :
    InStep { mode, child := (Child.idle repository (Child.lookupArguments mode)).launch index }
      repository mode :=
  ⟨rfl, rfl, .launch repository mode index⟩

/-- Where the system refuses nothing, a look-up starts in step. -/
theorem succeeds_start (repository : Repository) (mode : LookupMode) :
    Succeeds (Lookup.start repository mode) fun lookup => lookup.InStep repository mode :=
  (Child.succeeds_start _).bind fun _ ⟨index, same⟩ =>
    succeeds_pure (same ▸ inStep_launch repository mode index)

end InStep

end Lookup

end StoreAudit
