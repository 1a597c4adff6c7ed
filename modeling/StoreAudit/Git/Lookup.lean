import StoreAudit.Git.Child

/-!
# Looking objects up

A look-up co-process gets one object name a line and answers each with a header and, in one mode,
the content. `Lookup.ask` is one question with everything that can come back.
-/

namespace StoreAudit

/-- A co-process that answers to object names. -/
structure Lookup where
  mode : LookupMode
  child : Child
  running : Bool := true

/-- An object as a look-up delivers it; without contents its data is empty. -/
structure FoundObject where
  digest : Bytes
  type : Bytes
  size : Int64
  data : Bytes := []
  deriving DecidableEq

/-- What comes back for a name. -/
inductive LookupOutcome where
  | found (object : FoundObject)
  | missing
  /-- The name holds a line separator and is not asked for. -/
  | badName
  /-- The co-process ended instead of answering. -/
  | ended
  /-- The co-process ended in the middle of its answer. -/
  | shortRead
  | badHeader (line : Bytes)
  /-- The content is not followed by a line separator. -/
  | badTrailer (digest : Bytes)
  | pipe (problem : PipeError)
  deriving DecidableEq

namespace Lookup

/-- What a header says: the digest, the type and the size of an object, or that there is none. -/
inductive Header where
  | object (digest type : Bytes) (size : UInt64)
  | missing
  deriving DecidableEq

/-- Reads a header. -/
def header? (line : Bytes) : Option Header :=
  match Bytes.split Ascii.space line with
  | [_, verdict] => if verdict = ascii "missing" then some .missing else none
  | [digest, type, size] => (Decimal.toWord? size).map (.object digest type ·)
  | _ => none

/-- Reads the content that follows a header, and the line separator after it. -/
def readContent (lookup : Lookup) (object : FoundObject) (length : Nat) :
    Lookup × LookupOutcome :=
  match lookup.child.readExact length with
  | .error problem => (lookup, .pipe problem)
  | .ok (none, child) => ({ lookup with child }, .shortRead)
  | .ok (some data, child) =>
    match child.readExact 1 with
    | .error problem => ({ lookup with child }, .pipe problem)
    | .ok (none, child) => ({ lookup with child }, .shortRead)
    | .ok (some trailer, child) =>
      if trailer = [Ascii.newline] then ({ lookup with child }, .found { object with data })
      else ({ lookup with child }, .badTrailer object.digest)

/-- Reads the answer to a name that was written. -/
def readAnswer (lookup : Lookup) : Lookup × LookupOutcome :=
  match lookup.child.readLine Ascii.newline with
  | .error problem => (lookup, .pipe problem)
  | .ok (none, child) => ({ lookup with child }, .ended)
  | .ok (some line, child) =>
    let lookup := { lookup with child }
    match header? line with
    | none => (lookup, .badHeader line)
    | some .missing => (lookup, .missing)
    | some (.object digest type size) =>
      let object : FoundObject := { digest, type, size := size.toInt64 }
      match lookup.mode with
      | .headers => (lookup, .found object)
      | .contents => lookup.readContent object size.toNat

/-- Asks for a name. -/
def ask (lookup : Lookup) (name : Bytes) : Lookup × LookupOutcome :=
  if name.contains Ascii.newline then (lookup, .badName)
  else match lookup.child.write (name ++ [Ascii.newline]) with
    | .error problem => (lookup, .pipe problem)
    | .ok child => { lookup with child }.readAnswer

/-- The object that an outcome delivers, if it delivers one; some outcomes are failures. -/
def conclude (lookup : Lookup) : LookupOutcome → Audit (Option FoundObject)
  | .found object => pure (some object)
  | .missing => pure none
  | .badName => throw .badLookupName
  | .ended => Audit.failUnlessInterrupted (.endedUnexpectedly lookup.child.command)
  | .shortRead => Audit.failUnlessInterrupted (.shortRead lookup.child.command)
  | .badHeader line => throw (.unexpectedHeader line)
  | .badTrailer digest => throw (.unexpectedTrailer digest)
  | .pipe problem => throw (lookup.child.failureOf problem)

/-- The object of a name, if there is one. -/
def get? (lookup : Lookup) (name : Bytes) : Audit (Option FoundObject × Lookup) := do
  let (asked, outcome) := lookup.ask name
  let object ← asked.conclude outcome
  pure (object, asked)

/-- The object of a name, which must be there. -/
def get (lookup : Lookup) (name : Bytes) : Audit (FoundObject × Lookup) := do
  match ← lookup.get? name with
  | (some object, asked) => pure (object, asked)
  | (none, _) => throw (.missingObject name)

/-- Starts a co-process. -/
def start (repository : Repository) (mode : LookupMode) : Audit Lookup := do
  let child ← (Child.idle repository (Child.lookupArguments mode)).start
  pure { mode, child }

/-- The look-up whose co-process has been told that no more names come. -/
def closed (lookup : Lookup) : Lookup :=
  { lookup with child := lookup.child.closeInput, running := false }

/-- Ends the co-process, which must end well. -/
def close (lookup : Lookup) : Audit Unit := do
  if lookup.running then lookup.closed.child.wait

end Lookup

end StoreAudit
