import StoreAudit.Pointer.Basic

/-!
# Scan items

What a scan of history delivers: pointers with the place where they were found, and files that stand
where a pointer should.
-/

namespace StoreAudit

/-- A pointer and where it was found. -/
structure FoundPointer where
  name : Bytes := []
  blobOid : Bytes := []
  oid : Bytes := []
  size : Int64 := 0
  /-- Whether it is written in the canonical form. -/
  canonical : Bool := true
  deriving DecidableEq

/-- One result of a scan. -/
inductive ScanItem where
  | pointer (found : FoundPointer)
  /-- A file that should be a pointer. -/
  | misplaced (path treeOid : Bytes)
  deriving DecidableEq

namespace FoundPointer

/-- The length of the names of blobs. -/
def blobOidLength : Nat := 40

/-- The pointer to a content, as if it were found under a name. -/
def ofContent (name content : Bytes) (canonical : Bool) : FoundPointer where
  name := name
  blobOid := (Digest.nameOf name).take blobOidLength
  oid := Digest.nameOf content
  size := Int64.ofNat content.length
  canonical := canonical

/-- The pointer that a blob is, if it is one. -/
def ofBlob? (name blobOid data : Bytes) : Option FoundPointer :=
  (Pointer.decode? data).map fun (pointer, canonical) =>
    { name, blobOid, oid := pointer.oid, size := pointer.size, canonical }

end FoundPointer

end StoreAudit
