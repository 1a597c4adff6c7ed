import StoreAudit.Proofs.Git.Answers
import StoreAudit.Proofs.Git.Reaping

/-!
# Dialogues with a look-up command

A caller asks for one name after the other and goes on when a call fails. If the command answers
from an object base, each call gets the answer to its own name (`Lookup.InStep.results`). What is
taken for an answer when the command says something else is settled by the bytes that it has written
(`Lookup.TakenFor`, `Lookup.Denies`), and everything else makes the call fail.
-/

namespace StoreAudit

open Audit

namespace ObjectBase

/-- What comes back for a name. -/
def outcome (base : ObjectBase) (mode : LookupMode) (name : Bytes) : LookupOutcome :=
  if Ascii.newline ∈ name then .badName
  else
    match base.find? name with
    | some object => .found (object.seen mode)
    | none => .missing

/-- What a caller gets for a name: a failure if the name is not on one line; else whether there is
an object, and his variables, which hold the object if there is one and what they held if not. -/
def answer (base : ObjectBase) (mode : LookupMode) (name : Bytes) (held : FoundObject) :
    Except Failure (Bool × FoundObject) :=
  if Ascii.newline ∈ name then .error .badLookupName
  else
    match base.find? name with
    | some object => .ok (true, object.seen mode)
    | none => .ok (false, held)

end ObjectBase

namespace Child

variable {child : Child}

/-- A started child hands out the first line of its output, if there is any. -/
theorem readLine_cases (started : child.started = true) (delimiter : UInt8) :
    (∃ heard, child.readLine delimiter = .ok (none, heard) ∧ child.output.remaining = []) ∨
      ∃ line heard, child.readLine delimiter = .ok (some line, heard) ∧
        FirstLine delimiter child.output.remaining line heard.output.remaining ∧
        heard.started = true := by
  rcases read : child.output.readLine delimiter with ⟨_ | line, later⟩
  · refine .inl ⟨child.listen later, ?_, (PipeReader.remaining_of_readLine read).1⟩
    simp [readLine, isReadable, started, read]
  · refine .inr ⟨line, child.listen later, ?_, PipeReader.firstLine_of_readLine read, started⟩
    simp [readLine, isReadable, started, read]

/-- A started child hands out as many bytes as asked for, if there are as many. -/
theorem readExact_cases (started : child.started = true) (count : Nat) :
    (∃ heard, child.readExact count = .ok (none, heard) ∧
      child.output.remaining.length < count) ∨
      ∃ data heard, child.readExact count = .ok (some data, heard) ∧ data.length = count ∧
        child.output.remaining = data ++ heard.output.remaining ∧ heard.started = true := by
  rcases read : child.output.readExact count with ⟨_ | data, later⟩
  · refine .inl ⟨child.listen later, ?_, (PipeReader.remaining_of_readExact_none read).1⟩
    simp [readExact, isReadable, started, read]
  · obtain ⟨length, parts⟩ := PipeReader.remaining_of_readExact read
    refine .inr ⟨data, child.listen later, ?_, length, parts, started⟩
    simp [readExact, isReadable, started, read]

end Child

namespace Lookup

/-- Asks for a name and puts the object, if there is one, into the variables of the caller. -/
def getInto (lookup : Lookup) (name : Bytes) (held : FoundObject) : Audit (Bool × FoundObject) := do
  let (object, _) ← lookup.get? name
  pure (object.isSome, object.getD held)

/-- What the calls give a caller who goes on when one fails: he asks for each name with variables
that hold something. -/
def results (lookup : Lookup) (session : Session) :
    List (Bytes × FoundObject) → List (Except Failure (Bool × FoundObject))
  | [] => []
  | (name, held) :: rest =>
    let (result, after) := lookup.getInto name held session
    result :: (lookup.ask name).1.results after rest

namespace InStep

variable {lookup : Lookup} {repository : Repository} {base : ObjectBase} {mode : LookupMode}
  {name : Bytes}

/-- A call leaves the look-up in step, whatever comes back. -/
theorem ask_outcome (inStep : lookup.InStep repository mode) (word : Ascii.space ∉ name)
    (reply : Ascii.newline ∉ name →
      repository.transcript.lookup mode name = base.reply mode name) :
    ∃ later, lookup.ask name = (later, base.outcome mode name) ∧ later.InStep repository mode := by
  unfold ObjectBase.outcome
  by_cases broken : Ascii.newline ∈ name
  · rw [if_pos broken]
    exact ⟨lookup, by simp [ask, broken], inStep⟩
  · rw [if_neg broken]
    cases found : base.find? name with
    | some object => exact inStep.ask_found found (reply broken)
    | none => exact inStep.ask_missing found ⟨word, broken⟩ (reply broken)

private theorem getInto_eq (inStep : lookup.InStep repository mode) (word : Ascii.space ∉ name)
    (reply : Ascii.newline ∉ name → repository.transcript.lookup mode name = base.reply mode name)
    (held : FoundObject) (session : Session) :
    lookup.getInto name held session = (base.answer mode name held, session) := by
  obtain ⟨later, asked, -⟩ := inStep.ask_outcome word reply
  unfold getInto get?
  rw [asked]
  unfold ObjectBase.outcome ObjectBase.answer
  by_cases broken : Ascii.newline ∈ name
  · rw [if_pos broken, if_pos broken]
    rfl
  · rw [if_neg broken, if_neg broken]
    cases base.find? name <;> rfl

/-- Each call gets the answer to its own name. -/
theorem results_eq (inStep : lookup.InStep repository mode) (session : Session)
    {calls : List (Bytes × FoundObject)} (words : ∀ call ∈ calls, Ascii.space ∉ call.1)
    (replies : ∀ call ∈ calls, Ascii.newline ∉ call.1 →
      repository.transcript.lookup mode call.1 = base.reply mode call.1) :
    lookup.results session calls = calls.map fun call => base.answer mode call.1 call.2 := by
  induction calls generalizing lookup with
  | nil => rfl
  | cons call rest ih =>
      obtain ⟨word, wordsRest⟩ := List.forall_mem_cons.mp words
      obtain ⟨reply, repliesRest⟩ := List.forall_mem_cons.mp replies
      obtain ⟨later, asked, still⟩ := inStep.ask_outcome word reply
      have further := ih still wordsRest repliesRest
      rw [results, inStep.getInto_eq word reply, asked, List.map_cons, ← further]

end InStep

/-- What says that there is no object: a word and that it is missing, possibly with a blank after
it. -/
theorem header?_eq_missing_iff {line : Bytes} :
    header? line = some .missing ↔ ∃ name trailer,
      line = name ++ Ascii.space :: (ascii "missing" ++ trailer) ∧ Ascii.space ∉ name ∧
        (trailer = [] ∨ trailer = [Ascii.space]) := by
  have nonempty : ascii "missing" ≠ [] := by decide
  have whole : Ascii.space ∉ ascii "missing" := by decide
  constructor
  · intro read
    unfold header? at read
    split at read
    · rename_i name verdict parts
      split at read
      · rename_i missing
        rw [missing, Bytes.split_eq_cons_cons_iff] at parts
        obtain ⟨word, rest, rfl, only⟩ := parts
        obtain ⟨-, trailer, blank, rfl⟩ := (Bytes.split_eq_singleton_iff nonempty).mp only
        exact ⟨name, trailer, rfl, word, blank⟩
      · cases read
    · cases size : Decimal.toWord? _ <;> rw [size] at read <;> cases read
    · cases read
  · rintro ⟨name, trailer, rfl, word, blank⟩
    have parts : Bytes.split Ascii.space (name ++ Ascii.space :: (ascii "missing" ++ trailer)) =
        [name, ascii "missing"] := by
      rw [Bytes.split_append_cons word]
      exact congrArg _ ((Bytes.split_eq_singleton_iff nonempty).mpr ⟨whole, trailer, blank, rfl⟩)
    simp [header?, parts]

/-- What gives an object: two words and a size in decimal digits, possibly with a blank after it. -/
theorem header?_eq_object_iff {line digest type : Bytes} {word : UInt64} :
    header? line = some (.object digest type word) ↔ ∃ size trailer,
      line = digest ++ Ascii.space :: (type ++ Ascii.space :: (size ++ trailer)) ∧
        Ascii.space ∉ digest ∧ Ascii.space ∉ type ∧ Decimal.Denotes size word.toNat ∧
        (trailer = [] ∨ trailer = [Ascii.space]) := by
  constructor
  · intro read
    unfold header? at read
    split at read
    · split at read <;> cases read
    · rename_i first second size parts
      obtain ⟨same, isSize, equal⟩ := Option.map_eq_some_iff.mp read
      cases equal
      have denotes := Decimal.toWord?_eq_some_iff.mp isSize
      obtain ⟨digestWord, rest, rfl, others⟩ := Bytes.split_eq_cons_cons_iff.mp parts
      obtain ⟨typeWord, rest, rfl, only⟩ := Bytes.split_eq_cons_cons_iff.mp others
      obtain ⟨-, trailer, blank, rfl⟩ := (Bytes.split_eq_singleton_iff denotes.nonempty).mp only
      exact ⟨size, trailer, rfl, digestWord, typeWord, denotes, blank⟩
    · cases read
  · rintro ⟨size, trailer, rfl, digestWord, typeWord, denotes, blank⟩
    have digits : Ascii.space ∉ size := fun member =>
      absurd (denotes.digits _ member) (by decide)
    have parts : Bytes.split Ascii.space
        (digest ++ Ascii.space :: (type ++ Ascii.space :: (size ++ trailer))) =
          [digest, type, size] := by
      rw [Bytes.split_append_cons digestWord, Bytes.split_append_cons typeWord,
        (Bytes.split_eq_singleton_iff denotes.nonempty).mpr ⟨digits, trailer, blank, rfl⟩]
    simp [header?, parts, Decimal.toWord?_eq_some_iff.mpr denotes]

/-- The content of an object and a line end come next, if contents are asked for. -/
def Follows (mode : LookupMode) (object : FoundObject) (rest : Bytes) : Prop :=
  match mode with
  | .headers => object.data = []
  | .contents => object.data.length = object.size.toUInt64.toNat ∧
      ∃ after, rest = object.data ++ Ascii.newline :: after

/-- The output is read as an answer with this object: its first line gives two words, a size and
possibly a blank, and the content follows. -/
structure Reads (mode : LookupMode) (object : FoundObject) (output size trailer rest : Bytes) :
    Prop where
  line : FirstLine Ascii.newline output
    (object.digest ++ Ascii.space :: (object.type ++ Ascii.space :: (size ++ trailer))) rest
  digestWord : Ascii.space ∉ object.digest
  typeWord : Ascii.space ∉ object.type
  denotes : Decimal.Denotes size object.size.toUInt64.toNat
  blank : trailer = [] ∨ trailer = [Ascii.space]
  follows : Follows mode object rest

/-- The output is taken for an answer with this object. -/
def TakenFor (mode : LookupMode) (object : FoundObject) (output : Bytes) : Prop :=
  ∃ size trailer rest, Reads mode object output size trailer rest

/-- The output begins with the documented answer with this object: the words are not empty, nothing
stands after the size, and the line has an end. -/
def Documents (mode : LookupMode) (object : FoundObject) (output : Bytes) : Prop :=
  object.digest ≠ [] ∧ object.type ≠ [] ∧ ∃ size rest, Reads mode object output size [] rest ∧
    output = object.digest ++ Ascii.space :: (object.type ++ Ascii.space ::
      (size ++ Ascii.newline :: rest))

/-- The output is taken for an answer with this object, but it is not the documented one: a word is
empty, a blank stands after the size, or the output ends before the line does. -/
def Slips (mode : LookupMode) (object : FoundObject) (output : Bytes) : Prop :=
  ∃ size trailer rest, Reads mode object output size trailer rest ∧
    (object.digest = [] ∨ object.type = [] ∨ trailer = [Ascii.space] ∨ Ascii.newline ∉ output)

/-- The output is taken for the answer that there is no object. -/
def Denies (output : Bytes) : Prop :=
  ∃ name trailer rest,
    FirstLine Ascii.newline output (name ++ Ascii.space :: (ascii "missing" ++ trailer)) rest ∧
      Ascii.space ∉ name ∧ (trailer = [] ∨ trailer = [Ascii.space])

variable {lookup : Lookup} {mode : LookupMode} {object : FoundObject}
  {name output line rest : Bytes}

private theorem takenFor_iff_documents_or_slips :
    TakenFor mode object output ↔ Documents mode object output ∨ Slips mode object output := by
  constructor
  · rintro ⟨size, trailer, rest, reads⟩
    by_cases slips : object.digest = [] ∨ object.type = [] ∨ trailer = [Ascii.space] ∨
        Ascii.newline ∉ output
    · exact .inr ⟨size, trailer, rest, reads, slips⟩
    · simp only [not_or, not_not] at slips
      obtain ⟨digest, type, tight, ended⟩ := slips
      obtain rfl := reads.blank.resolve_right tight
      refine .inl ⟨digest, type, size, rest, reads, ?_⟩
      have line := reads.line
      generalize whole : object.digest ++ Ascii.space :: (object.type ++ Ascii.space ::
        (size ++ [])) = header at line
      cases line with
      | ended absent rest =>
          rw [← whole]
          simp
      | cut absent nonempty => exact absurd ended absent
  · rintro (⟨-, -, size, rest, reads, -⟩ | ⟨size, trailer, rest, reads, -⟩)
    · exact ⟨size, [], rest, reads⟩
    · exact ⟨size, trailer, rest, reads⟩

/-- The documented answer has a first line, with two blanks in it. -/
theorem Documents.count_blanks (documents : Documents mode object output) :
    Ascii.newline ∈ output ∧
      (output.takeWhile (· != Ascii.newline)).count Ascii.space = 2 := by
  obtain ⟨-, -, size, rest, reads, rfl⟩ := documents
  have digits : Ascii.space ∉ size := fun member =>
    absurd (reads.denotes.digits _ member) (by decide)
  have whole := reads.line.line_whole
  rw [List.append_nil] at whole
  have kept : ∀ byte ∈ object.digest ++ Ascii.space :: (object.type ++ Ascii.space :: size),
      (byte != Ascii.newline) = true := by
    intro byte member
    exact bne_iff_ne.mpr fun same => whole (same ▸ member)
  have parts : object.digest ++ Ascii.space :: (object.type ++ Ascii.space ::
      (size ++ Ascii.newline :: rest)) =
        (object.digest ++ Ascii.space :: (object.type ++ Ascii.space :: size)) ++
          Ascii.newline :: rest := by
    simp
  rw [parts, List.takeWhile_append_of_pos kept]
  refine ⟨List.mem_append_right _ List.mem_cons_self, ?_⟩
  simp [List.count_append, List.count_eq_zero.mpr reads.digestWord,
    List.count_eq_zero.mpr reads.typeWord, List.count_eq_zero.mpr digits]

private theorem takenFor_iff (first : FirstLine Ascii.newline output line rest) :
    TakenFor mode object output ↔
      header? line = some (.object object.digest object.type object.size.toUInt64) ∧
        Follows mode object rest := by
  rw [header?_eq_object_iff]
  constructor
  · rintro ⟨size, trailer, rest, reads⟩
    obtain ⟨rfl, rfl⟩ := first.unique reads.line
    exact ⟨⟨size, trailer, rfl, reads.digestWord, reads.typeWord, reads.denotes, reads.blank⟩,
      reads.follows⟩
  · rintro ⟨⟨size, trailer, rfl, digestWord, typeWord, denotes, blank⟩, follows⟩
    exact ⟨size, trailer, rest, first, digestWord, typeWord, denotes, blank, follows⟩

private theorem denies_iff (first : FirstLine Ascii.newline output line rest) :
    Denies output ↔ header? line = some .missing := by
  rw [header?_eq_missing_iff]
  constructor
  · rintro ⟨name, trailer, rest, other, word, blank⟩
    exact ⟨name, trailer, (first.unique other).1, word, blank⟩
  · rintro ⟨name, trailer, rfl, word, blank⟩
    exact ⟨name, trailer, rest, first, word, blank⟩

/-- The content that is read is what comes next, if a line end follows it. -/
theorem readContent_eq_found_iff (started : lookup.child.started = true) (header : FoundObject)
    (length : Nat) :
    (lookup.readContent header length).2 = .found object ↔
      object = { header with data := object.data } ∧ object.data.length = length ∧
        ∃ after, lookup.child.output.remaining = object.data ++ Ascii.newline :: after := by
  obtain ⟨heard, read, short⟩ | ⟨data, heard, read, rfl, parts, still⟩ :=
    Child.readExact_cases started length
  · simp only [readContent, read]
    constructor
    · intro impossible
      cases impossible
    · rintro ⟨-, rfl, after, parts⟩
      rw [parts, List.length_append] at short
      omega
  -- The length settles the content, so only the byte behind it is left to look at.
  have settled : (object.data.length = data.length ∧ ∃ after,
      lookup.child.output.remaining = object.data ++ Ascii.newline :: after) ↔
        object.data = data ∧ ∃ after, heard.output.remaining = Ascii.newline :: after := by
    rw [parts]
    constructor
    · rintro ⟨length, after, same⟩
      obtain ⟨rfl, rest⟩ := List.append_inj same.symm length
      exact ⟨rfl, after, rest.symm⟩
    · rintro ⟨rfl, after, rest⟩
      exact ⟨rfl, after, by rw [rest]⟩
  rw [settled]
  obtain ⟨last, trailed, short⟩ | ⟨trailer, last, trailed, one, rest, -⟩ :=
    Child.readExact_cases still 1
  · simp only [readContent, read, trailed]
    constructor
    · intro impossible
      cases impossible
    · rintro ⟨-, -, after, rest⟩
      rw [rest, List.length_cons] at short
      omega
  · obtain ⟨byte, rfl⟩ := List.length_eq_one_iff.mp one
    simp only [readContent, read, trailed, rest, List.singleton_append, List.cons.injEq, and_true]
    by_cases ends : byte = Ascii.newline
    · simp only [ends, if_true, LookupOutcome.found.injEq, true_and, exists_eq', and_true]
      constructor
      · rintro rfl
        exact ⟨rfl, rfl⟩
      · rintro ⟨same, data⟩
        rw [same, data]
    · simp [ends]

private theorem readContent_ne_missing (header : FoundObject) (length : Nat) :
    (lookup.readContent header length).2 ≠ .missing := by
  unfold readContent
  split
  · exact nofun
  · exact nofun
  · split
    · exact nofun
    · exact nofun
    · split <;> exact nofun

private theorem eq_found_iff {digest type : Bytes} {size : UInt64} :
    object = ⟨digest, type, size.toInt64, object.data⟩ ↔
      digest = object.digest ∧ type = object.type ∧ size = object.size.toUInt64 := by
  constructor
  · intro same
    rw [same]
    exact ⟨rfl, rfl, rfl⟩
  · rintro ⟨rfl, rfl, rfl⟩
    rfl

/-- An answer is read as an object exactly if what is left of the output is taken for one. -/
theorem readAnswer_eq_found_iff (started : lookup.child.started = true) :
    lookup.readAnswer.2 = .found object ↔
      TakenFor lookup.mode object lookup.child.output.remaining := by
  obtain ⟨heard, read, empty⟩ | ⟨line, heard, read, first, still⟩ :=
    Child.readLine_cases started Ascii.newline
  · simp only [readAnswer, read]
    constructor
    · intro impossible
      cases impossible
    · rintro ⟨size, trailer, rest, reads⟩
      exact absurd empty reads.line.ne_nil
  rw [takenFor_iff first]
  simp only [readAnswer, read]
  cases shape : header? line with
  | none => simp
  | some header =>
      cases header with
      | missing => simp
      | object digest type size =>
          rw [Option.some.injEq, Header.object.injEq, ← eq_found_iff]
          cases mode : lookup.mode with
          | headers =>
              simp only [LookupOutcome.found.injEq, Follows]
              constructor
              · rintro rfl
                exact ⟨rfl, rfl⟩
              · rintro ⟨same, data⟩
                rw [same, data]
          | contents =>
              have content := fun header length =>
                @readContent_eq_found_iff ⟨.contents, heard, lookup.running⟩ object still header
                  length
              refine (content _ _).trans (and_congr_right fun same => ?_)
              have word : size = object.size.toUInt64 := (eq_found_iff.mp same).2.2
              rw [word]
              rfl

/-- An answer is read as a missing object exactly if what is left of the output denies it. -/
theorem readAnswer_eq_missing_iff (started : lookup.child.started = true) :
    lookup.readAnswer.2 = .missing ↔ Denies lookup.child.output.remaining := by
  obtain ⟨heard, read, empty⟩ | ⟨line, heard, read, first, still⟩ :=
    Child.readLine_cases started Ascii.newline
  · simp only [readAnswer, read]
    constructor
    · intro impossible
      cases impossible
    · rintro ⟨name, trailer, rest, denied, -⟩
      exact absurd empty denied.ne_nil
  rw [denies_iff first]
  simp only [readAnswer, read]
  cases shape : header? line with
  | none => simp
  | some header =>
      cases header with
      | missing => simp
      | object digest type size =>
          cases mode : lookup.mode with
          | headers => simp
          | contents => simpa using readContent_ne_missing _ _

/-- The question is written, and the command has then this output left. -/
def Hears (lookup : Lookup) (name output : Bytes) : Prop :=
  Ascii.newline ∉ name ∧ ∃ child, lookup.child.write (name ++ [Ascii.newline]) = .ok child ∧
    child.output.remaining = output

private theorem ask_eq_iff {outcome : LookupOutcome} {answers : Bytes → Prop}
    (started : lookup.child.started = true) (badName : outcome ≠ .badName)
    (pipe : ∀ problem, outcome ≠ .pipe problem)
    (read : ∀ child : Child, child.started = true →
      (({ lookup with child } : Lookup).readAnswer.2 = outcome ↔ answers child.output.remaining)) :
    (lookup.ask name).2 = outcome ↔ ∃ output, lookup.Hears name output ∧ answers output := by
  unfold ask Hears
  by_cases broken : Ascii.newline ∈ name
  · simp [broken, Ne.symm badName]
  · rw [if_neg (by simpa using broken)]
    cases written : lookup.child.write (name ++ [Ascii.newline]) with
    | error problem => simp [Ne.symm (pipe problem)]
    | ok child =>
        have still : child.started = true :=
          (Child.samePlace_write written).started.trans started
        simp [broken, read child still]

private theorem conclude_eq_ok_iff {outcome : LookupOutcome} {session : Session}
    {found : Option FoundObject} :
    (lookup.conclude outcome session).1 = .ok found ↔ outcome = found.elim .missing .found := by
  have throws (failure : Failure) : ((throw failure : Audit (Option FoundObject)) session).1 ≠
      .ok found := nofun
  have fails (failure : Failure) : (failUnlessInterrupted failure session).1 ≠ .ok found := by
    rw [failUnlessInterrupted_apply]
    exact nofun
  have gives (other : Option FoundObject) :
      ((pure other : Audit (Option FoundObject)) session).1 = .ok found ↔ other = found := by
    change Except.ok other = Except.ok found ↔ other = found
    rw [Except.ok.injEq]
  cases outcome <;> cases found <;> simp [conclude, throws, fails, gives]

/-- A call succeeds with what came back: an object, or that there is none. -/
theorem get?_eq_ok_iff {session : Session} {found : Option FoundObject} :
    (∃ later, (lookup.get? name session).1 = .ok (found, later)) ↔
      (lookup.ask name).2 = found.elim .missing .found := by
  unfold get?
  rcases lookup.ask name with ⟨asked, outcome⟩
  dsimp only
  rw [bind_pure_apply, ← @conclude_eq_ok_iff asked outcome session found]
  cases (asked.conclude outcome session).1 <;> simp [Except.map]

/-- **One answer for each call.** A command is started unless the system refuses. If it answers each
name as documented, each call gives what there is under its own name, whatever the contents hold and
however many calls came before: the object, or that there is none, and then the variables of the
caller are left as they were. A name with a line end in it is refused, and the later calls are not
disturbed. Whatever the command says, a call gives an object only if the output begins with the
documented answer, or with one that slips through: with an empty word, with a blank after the size
or, without contents, with a line that the end of the output cuts off. It tells that there is none
only if the output says so. Else it fails. -/
theorem calls_in_step {repository : Repository} {base : ObjectBase} {mode : LookupMode}
    {calls : List (Bytes × FoundObject)} (words : ∀ call ∈ calls, Ascii.space ∉ call.1)
    (replies : ∀ call ∈ calls, Ascii.newline ∉ call.1 →
      repository.transcript.lookup mode call.1 = base.reply mode call.1)
    {lookup : Lookup} (started : lookup.child.started = true) (name : Bytes) (session : Session) :
    (match session.refusal? with
      | some failure => (start repository mode session).1 = .error failure
      | none => ∃ opened after, start repository mode session = (.ok opened, after) ∧
          opened.results after calls = calls.map fun call => base.answer mode call.1 call.2) ∧
      Failure.badLookupName.kind = .coded .invalidArguments ∧
      (∀ object, (∃ later, (lookup.get? name session).1 = .ok (some object, later)) ↔
        ∃ output, lookup.Hears name output ∧
          (Documents lookup.mode object output ∨ Slips lookup.mode object output)) ∧
      ((∃ later, (lookup.get? name session).1 = .ok (none, later)) ↔
        ∃ output, lookup.Hears name output ∧ Denies output) := by
  refine ⟨?_, rfl, fun object => ?_, ?_⟩
  · rw [start_apply]
    cases session.refusal? with
    | some failure => rfl
    | none => exact ⟨_, _, rfl, (InStep.inStep_launch repository mode _).results_eq _ words replies⟩
  · simp only [← takenFor_iff_documents_or_slips]
    rw [get?_eq_ok_iff]
    change (lookup.ask name).2 = .found object ↔ _
    exact ask_eq_iff started nofun nofun fun child still => readAnswer_eq_found_iff still
  · rw [get?_eq_ok_iff]
    change (lookup.ask name).2 = .missing ↔ _
    exact ask_eq_iff started nofun nofun fun child still => readAnswer_eq_missing_iff still

/-- An object whose content looks like answers, and an empty one. -/
def sampleObjects : List (Bytes × StoredObject) :=
  [(ascii "g1", .file (ascii "g1") (ascii "h1 missing\ng1 blob 3\n" ++ [0])),
    (ascii "i1", .file (ascii "i1") [])]

/-- A repository with the two objects, and with names that are answered in other ways: with a blank
after the size, and with a header that the command did not finish. -/
def sampleRepository : Repository where
  directory := []
  transcript :=
    { objects := sampleObjects.map StoredObject.entry ++
        [{ name := ascii "s1"
           headerReply := ⟨ascii "s1 blob 5 \n", none⟩
           contentReply := ⟨ascii "s1 blob 5 \nhello\n", none⟩ },
          { name := ascii "t1"
            headerReply := ⟨ascii "t1 blob 12", some (.exit 0)⟩
            contentReply := ⟨ascii "t1 blob 12", some (.exit 0)⟩ }] }

def sampleBase : ObjectBase := .ofList sampleObjects (by decide +kernel)

/-- A look-up in the repository that was just opened. -/
def sampleLookup (mode : LookupMode) : Lookup where
  mode := mode
  child := (Child.idle sampleRepository (Child.lookupArguments mode)).launch 0

/-- What a caller holds before a call. -/
def untouched : FoundObject := ⟨ascii "untouched", ascii "untouched", -7, ascii "untouched"⟩

/-- Two names that there are objects under, one that is not on one line, and one that there is
nothing under. -/
def sampleCalls : List (Bytes × FoundObject) :=
  [(ascii "g1", untouched), (ascii "g\n1", untouched), (ascii "h1", untouched),
    (ascii "i1", untouched)]

/-- A content that looks like answers, a name in two lines, an object that is not there, and an
empty one. -/
theorem calls_in_step_of_four_calls :
    (∃ opened after, start sampleRepository .contents {} = (.ok opened, after) ∧
      opened.results after sampleCalls =
        [.ok (true, ⟨ascii "g1", ascii "blob", 22, ascii "h1 missing\ng1 blob 3\n" ++ [0]⟩),
          .error .badLookupName, .ok (false, untouched),
          .ok (true, ⟨ascii "i1", ascii "blob", 0, []⟩)]) ∧
    ∃ output, (sampleLookup .headers).Hears (ascii "s1") output ∧
      (Documents .headers ⟨ascii "s1", ascii "blob", 5, []⟩ output ∨
        Slips .headers ⟨ascii "s1", ascii "blob", 5, []⟩ output) := by
  have found : ((sampleLookup .headers).ask (ascii "s1")).2 =
      .found ⟨ascii "s1", ascii "blob", 5, []⟩ := by
    decide +kernel
  have words : ∀ call ∈ sampleCalls, Ascii.space ∉ call.1 := by decide +kernel
  have replies : ∀ call ∈ sampleCalls, Ascii.newline ∉ call.1 →
      sampleRepository.transcript.lookup .contents call.1 = sampleBase.reply .contents call.1 := by
    decide +kernel
  have started : (sampleLookup .headers).child.started = true := rfl
  obtain ⟨⟨opened, after, begun, results⟩, -, shapes, -⟩ :=
    calls_in_step words replies started (ascii "s1") {}
  exact ⟨⟨opened, after, begun, results.trans rfl⟩, (shapes _).mp (get?_eq_ok_iff.mpr found)⟩

/-- A command that is started answers a name with this output, which is no documented answer with
any object, and the call gives an object. -/
def Misreads (mode : LookupMode) (name output : Bytes) (object : FoundObject) : Prop :=
  ∃ opened after, start sampleRepository mode {} = (.ok opened, after) ∧
    opened.Hears name output ∧ (∀ other, ¬ Documents mode other output) ∧
    ∃ later, (opened.get? name after).1 = .ok (some object, later)

private theorem misreads_of_found {mode : LookupMode} {name output : Bytes} {object : FoundObject}
    (hears : (sampleLookup mode).Hears name output)
    (shape : Ascii.newline ∉ output ∨
      (output.takeWhile (· != Ascii.newline)).count Ascii.space ≠ 2)
    (found : ((sampleLookup mode).ask name).2 = .found object) :
    Misreads mode name output object := by
  refine ⟨sampleLookup mode, _, rfl, hears, fun other documents => ?_,
    get?_eq_ok_iff.mpr found⟩
  obtain ⟨ended, blanks⟩ := documents.count_blanks
  exact shape.elim (· ended) (· blanks)

/-- A header with a blank after the size is taken for an answer in both modes, and one that is cut
off is taken for an answer with the digits so far as its size. -/
theorem undocumented_headers_accepted :
    Misreads .headers (ascii "s1") (ascii "s1 blob 5 \n") ⟨ascii "s1", ascii "blob", 5, []⟩ ∧
      Misreads .contents (ascii "s1") (ascii "s1 blob 5 \nhello\n")
        ⟨ascii "s1", ascii "blob", 5, ascii "hello"⟩ ∧
      Misreads .headers (ascii "t1") (ascii "t1 blob 12") ⟨ascii "t1", ascii "blob", 12, []⟩ := by
  refine ⟨misreads_of_found ⟨?_, _, rfl, ?_⟩ (.inr ?_) ?_,
    misreads_of_found ⟨?_, _, rfl, ?_⟩ (.inr ?_) ?_,
    misreads_of_found ⟨?_, _, rfl, ?_⟩ (.inl ?_) ?_⟩ <;> decide +kernel

end Lookup

end StoreAudit
