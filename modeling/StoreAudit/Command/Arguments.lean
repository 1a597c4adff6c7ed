import StoreAudit.Check.Run
import StoreAudit.Text.Decimal

/-!
# Arguments of a check

Options and refs may be mixed. A long option may be shortened as long as it stays unique, letters
may be joined, and nothing after a lone double dash is an option. The first argument that cannot be
used decides the outcome.
-/

namespace StoreAudit

/-- The long options. -/
inductive LongOption where
  | dryRun
  | objects
  | pointers
  | jobs
  deriving DecidableEq, Repr

namespace LongOption

/-- All long options. -/
def all : List LongOption := [dryRun, objects, pointers, jobs]

/-- The name of a long option. -/
def name : LongOption → Bytes
  | dryRun => ascii "dry-run"
  | objects => ascii "objects"
  | pointers => ascii "pointers"
  | jobs => ascii "jobs"

/-- The options that a name may stand for: the one that has it, or else all that start with it. -/
def candidates (name : Bytes) : List LongOption :=
  match all.find? fun option => option.name = name with
  | some option => [option]
  | none => all.filter fun option => option.name.startsWith name

end LongOption

/-- Why arguments cannot be used. -/
inductive ArgumentProblem where
  | unrecognized (text : Bytes)
  | ambiguous (text : Bytes)
  | unexpectedValue (option : LongOption)
  | missingValue (option : LongOption)
  | invalidLetter (letter : UInt8)
  | letterWithoutValue (letter : UInt8)
  | invalidJobs (text : Bytes)
  deriving DecidableEq, Repr

namespace ArgumentProblem

/-- A text in single quotes. -/
def quoted (text : Bytes) : Bytes := ascii "'" ++ text ++ ascii "'"

/-- A long option in single quotes. -/
def quotedOption (option : LongOption) : Bytes := quoted (ascii "--" ++ option.name)

/-- The message for the user. -/
def message : ArgumentProblem → Bytes
  | unrecognized text => ascii "fsck: unrecognized option " ++ quoted (ascii "--" ++ text)
  | ambiguous text =>
    ascii "fsck: option " ++ quoted (ascii "--" ++ text) ++ ascii " is ambiguous; possibilities:" ++
      (LongOption.candidates (text.takeWhile (· != 61))).flatMap fun option =>
        Ascii.space :: quotedOption option
  | unexpectedValue option =>
    ascii "fsck: option " ++ quotedOption option ++ ascii " doesn't allow an argument"
  | missingValue option =>
    ascii "fsck: option " ++ quotedOption option ++ ascii " requires an argument"
  | invalidLetter letter => ascii "fsck: invalid option -- " ++ quoted [letter]
  | letterWithoutValue letter => ascii "fsck: option requires an argument -- " ++ quoted [letter]
  | invalidJobs text => ascii "Invalid job count " ++ quoted text

/-- Whether the user is reminded of the usage. -/
def showsUsage : ArgumentProblem → Bool
  | invalidJobs _ => false
  | _ => true

end ArgumentProblem

/-- What the arguments of a check say. -/
structure CheckArguments where
  dryRun : Bool := false
  objects : Bool := false
  pointers : Bool := false
  /-- The number of jobs, if it is given. -/
  jobs : Option Nat := none
  refs : List Bytes := []
  deriving DecidableEq, Repr

namespace CheckArguments

/-- The largest number of jobs that can be asked for. -/
def maxJobs : Nat := 1024

/-- The arguments with a number of jobs. -/
def setJobs (arguments : CheckArguments) (text : Bytes) :
    Except ArgumentProblem CheckArguments :=
  match Decimal.toWord? text with
  | some jobs =>
    if jobs = 0 || maxJobs < jobs.toNat then .error (.invalidJobs text)
    else .ok { arguments with jobs := some jobs.toNat }
  | none => .error (.invalidJobs text)

/-- Reads the letters of one argument; the problem is there if the last one still needs a value. -/
def readLetters (arguments : CheckArguments) :
    Bytes → Except ArgumentProblem (CheckArguments × Option ArgumentProblem)
  | [] => .ok (arguments, none)
  | letter :: rest =>
    if letter = 100 then { arguments with dryRun := true }.readLetters rest
    else if letter = 106 then
      if rest.isEmpty then .ok (arguments, some (.letterWithoutValue letter))
      else (arguments.setJobs rest).map fun arguments => (arguments, none)
    else .error (.invalidLetter letter)

/-- The arguments with a long option that has no value. -/
def switch (arguments : CheckArguments) : LongOption → CheckArguments
  | .dryRun => { arguments with dryRun := true }
  | .objects => { arguments with objects := true }
  | .pointers => { arguments with pointers := true }
  | .jobs => arguments

/-- Reads a long option; the problem is there if it still needs a value. -/
def readLong (arguments : CheckArguments) (text : Bytes) :
    Except ArgumentProblem (CheckArguments × Option ArgumentProblem) :=
  let name := text.takeWhile (· != 61)
  let value := (text.dropWhile (· != 61)).tail?
  match LongOption.candidates name with
  | [] => .error (.unrecognized text)
  | [.jobs] =>
    match value with
    | some value => (arguments.setJobs value).map fun arguments => (arguments, none)
    | none => .ok (arguments, some (.missingValue .jobs))
  | [option] =>
    match value with
    | some _ => .error (.unexpectedValue option)
    | none => .ok (arguments.switch option, none)
  | _ => .error (.ambiguous text)

/-- What an argument is by its looks. -/
inductive Form where
  | long (text : Bytes)
  | letters (text : Bytes)
  | ref

/-- The form of an argument. -/
def formOf : Bytes → Form
  | Ascii.dash :: Ascii.dash :: text => .long text
  | Ascii.dash :: letter :: letters => .letters (letter :: letters)
  | _ => .ref

/-- Reads one argument; the problem is there if the next one has to be its value. -/
def readOne (arguments : CheckArguments) (argument : Bytes) :
    Except ArgumentProblem (CheckArguments × Option ArgumentProblem) :=
  match formOf argument with
  | .long text => arguments.readLong text
  | .letters text => arguments.readLetters text
  | .ref => .ok ({ arguments with refs := arguments.refs ++ [argument] }, none)

/-- Reads the remaining arguments. -/
def read (arguments : CheckArguments) : List Bytes → Except ArgumentProblem CheckArguments
  | [] => .ok arguments
  | argument :: rest =>
    if argument = [Ascii.dash, Ascii.dash] then
      .ok { arguments with refs := arguments.refs ++ rest }
    else match arguments.readOne argument with
      | .error problem => .error problem
      | .ok (arguments, none) => arguments.read rest
      | .ok (arguments, some missing) =>
        match rest with
        | [] => .error missing
        | value :: more =>
          match arguments.setJobs value with
          | .error problem => .error problem
          | .ok arguments => arguments.read more

/-- Reads the arguments of a check. -/
def parse (arguments : List Bytes) : Except ArgumentProblem CheckArguments :=
  CheckArguments.read {} arguments

end CheckArguments

end StoreAudit
