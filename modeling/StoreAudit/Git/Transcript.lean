import StoreAudit.Text.Decimal
import StoreAudit.Text.Split

/-!
# What git answers

A repository is known only through the answers of git. Two kinds of commands are told apart: calls,
which answer to their arguments, and the two look-up commands, which answer line by line to the
names they read.
-/

namespace StoreAudit

/-- How a child ends: by itself with a status or by a signal. -/
inductive Ending where
  | exit (status : Nat)
  | killed
  deriving DecidableEq, Repr

/-- The status that a waiting parent is told. -/
def Ending.status : Ending → Int
  | exit status => (status % 256 : Nat)
  | killed => -1

/-- The answer to a call. -/
structure GitCall where
  arguments : List Bytes
  output : Bytes := []
  errorText : Bytes := []
  ending : Ending := .exit 0
  /-- Whether the call copies its input to its output after the answer. -/
  echoes : Bool := false
  deriving DecidableEq, Repr

/-- The two look-up commands: one answers with the header of an object, the other with the content
too. -/
inductive LookupMode where
  | headers
  | contents
  deriving DecidableEq, Repr

/-- An answer to a name, and how the command ends after it, if it does: by itself, or because it is
killed in the middle of the answer. -/
structure LookupReply where
  text : Bytes
  ending : Option Ending := none
  deriving DecidableEq, Repr

/-- The answers to the name of an object in the two modes. -/
structure GitObject where
  name : Bytes
  headerReply : LookupReply
  contentReply : LookupReply
  deriving DecidableEq, Repr

/-- How a look-up command ends once it has no more names to read. -/
structure LookupEnd where
  errorText : Bytes := []
  ending : Ending := .exit 0
  deriving DecidableEq, Repr

/-- Everything that git answers about a repository. -/
structure Transcript where
  calls : List GitCall := []
  objects : List GitObject := []
  headersEnd : LookupEnd := {}
  contentsEnd : LookupEnd := {}
  deriving DecidableEq, Repr

namespace GitObject

/-- The header of an object: its digest, its type and the size of its content. -/
def header (digest type content : Bytes) : Bytes :=
  digest ++ Ascii.space :: type ++ Ascii.space :: Decimal.ofNat content.length ++ [Ascii.newline]

/-- An object that git has. -/
def stored (name digest type content : Bytes) : GitObject :=
  { name
    headerReply := ⟨header digest type content, none⟩
    contentReply := ⟨header digest type content ++ content ++ [Ascii.newline], none⟩ }

/-- The answer in a mode. -/
def reply (object : GitObject) : LookupMode → LookupReply
  | .headers => object.headerReply
  | .contents => object.contentReply

end GitObject

namespace Transcript

/-- The answer to a call that git does not know. -/
def unknownCall (arguments : List Bytes) : GitCall :=
  { arguments, errorText := ascii "fatal: no such call\n", ending := .exit 128 }

/-- The answer to a call. Arguments are zero-terminated. -/
def call (transcript : Transcript) (arguments : List Bytes) : GitCall :=
  let received := arguments.map Bytes.beforeNul
  (transcript.calls.find? fun call => call.arguments.map Bytes.beforeNul = received).getD
    (unknownCall received)

/-- The answer to a name that git has no object for. -/
def missing (name : Bytes) : LookupReply := ⟨name ++ ascii " missing\n", none⟩

/-- The answer to a name. -/
def lookup (transcript : Transcript) (mode : LookupMode) (name : Bytes) : LookupReply :=
  match transcript.objects.find? fun object => object.name = name with
  | some object => object.reply mode
  | none => missing name

/-- How a look-up command ends. -/
def lookupEnd (transcript : Transcript) : LookupMode → LookupEnd
  | .headers => transcript.headersEnd
  | .contents => transcript.contentsEnd

end Transcript

/-- A directory, and what git answers there. -/
structure Repository where
  directory : Bytes
  transcript : Transcript
  deriving DecidableEq, Repr

end StoreAudit
