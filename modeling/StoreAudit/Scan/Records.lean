import StoreAudit.Git.Lookup
import StoreAudit.Scan.Item

/-!
# Record listings

The listings of git are read record by record. A listing without input is settled by the arguments,
so it is held as the records that are still to be read and the child that delivers them.
-/

namespace StoreAudit

/-- A listing that is being read. -/
structure RecordListing where
  child : Child
  records : List Bytes

namespace RecordListing

/-- Starts a listing whose records end with a delimiter. -/
def start (repository : Repository) (arguments : List Bytes) (delimiter : UInt8) :
    Audit RecordListing := do
  let child ← repository.start arguments
  let (output, rest) := child.output.readAll
  pure { child := { child with output := rest }, records := Bytes.split delimiter output }

end RecordListing

/-- The records that a listing would have. -/
def Repository.recordsOf (repository : Repository) (arguments : List Bytes) (delimiter : UInt8) :
    List Bytes :=
  Bytes.split delimiter (repository.transcript.call arguments).output

/-- The arguments that list history: commits, and their objects if asked for. -/
def historyArguments (objects : Bool) (start stop : Bytes) : List Bytes :=
  ascii "rev-list" :: (if objects then [ascii "--objects"] else []) ++ stop ::
    (if start.isEmpty then [] else [94 :: start]) ++ [ascii "--"]

/-- Whether an object of this type and size can be a pointer. -/
def FoundObject.mayBePointer (object : FoundObject) : Bool :=
  object.type = ascii "blob" && object.size ≠ 0 && object.size < Int64.ofNat Pointer.maxSize

end StoreAudit
