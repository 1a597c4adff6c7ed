import StoreAudit.Scan.Feed
import StoreAudit.Store.Basic

/-!
# Checking objects

The object of a pointer is fine if its content has the name that the pointer gives. An object that
is not there is fine only for a pointer to the empty content.
-/

namespace StoreAudit

/-- How files are opened for reading: why it failed, or what reading the file delivers. -/
abbrev Opening := FileTree → Bytes → Except Errno (Reading Errno)

/-- What is wrong with the object of a pointer, if anything, after what came of opening it. An
object that can be opened and not be read to its end is no finding but a failure. -/
def FoundPointer.problemOf? (pointer : FoundPointer) (path : Bytes) :
    Except Errno (Reading Errno) → Except Failure (Option Finding)
  | .error errno =>
    if errno = .noEntry ∧ pointer.size = 0 then .ok none
    else .ok (some (.openError pointer.name pointer.oid errno.text))
  | .ok reading =>
    match Digest.ofReading reading with
    | .error errno => .error (.inCall (ascii "read(" ++ path ++ ascii ")") errno)
    | .ok (digest, _) =>
      if digest.text = pointer.oid then .ok none
      else .ok (some (.corruptObject pointer.name pointer.oid))

/-- What is wrong with a file as the object of a pointer, if anything. -/
def FoundPointer.problemAt? (pointer : FoundPointer) (files : FileTree) (path : Bytes) :
    Except Failure (Option Finding) :=
  pointer.problemOf? path (files.openForReading path 0)

/-- What the trace says of an object before it is looked at. -/
def FoundPointer.examination (pointer : FoundPointer) (path : Bytes) : Bytes :=
  ascii "Examining " ++ pointer.name.beforeNul ++ ascii " (" ++ path.beforeNul ++ ascii ")"

/-- Looks at the object of a pointer, given how files are opened, and says what is wrong with it, if
anything. -/
def Store.checkObjectBy (opening : Opening) (store : Store) (pointer : FoundPointer) :
    Audit (Option Finding) := do
  let path ← store.objectPath pointer.oid
  Audit.trace (pointer.examination path)
  pointer.problemOf? path (opening (← Audit.inspect path) path)

/-- Looks at the object of a pointer and says what is wrong with it, if anything. -/
def Store.checkObject (store : Store) (pointer : FoundPointer) : Audit (Option Finding) :=
  store.checkObjectBy (fun files path => files.openForReading path 0) pointer

/-- The pointer of an item among the objects to check, which may hold nothing else. -/
def ScanItem.onlyPointer : ScanItem → Except Failure FoundPointer
  | .pointer found => .ok found
  | .misplaced path _ => .error (.unexpectedScanError path)

namespace Store

/-- Checks the object of an item and reports what is wrong with it. -/
def visitObject (store : Store) (item : ScanItem) : Audit Unit := do
  let pointer ← item.onlyPointer
  match ← store.checkObject pointer with
  | some finding => Audit.report finding
  | none => pure ()

/-- Checks the objects of a feed one after the other. -/
def checkInOrder (store : Store) (feed : Feed) : Audit Unit := feed.forEach store.visitObject

end Store

end StoreAudit
