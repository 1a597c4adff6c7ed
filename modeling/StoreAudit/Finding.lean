import StoreAudit.Text.Bytes

/-!
# Findings

One integrity problem, with what is needed to find it again. Problems of objects name the object to
be taken out of service; problems of history name a pointer or a file that history should not hold.
-/

namespace StoreAudit

/-- An integrity problem. -/
inductive Finding where
  /-- The content of an object has another name. -/
  | corruptObject (name oid : Bytes)
  /-- The object could not be opened. -/
  | openError (name oid reason : Bytes)
  /-- A pointer that is not written in the canonical form. -/
  | nonCanonicalPointer (oid blobOid : Bytes)
  /-- A file that should be a pointer and is not. -/
  | unexpectedGitObject (path treeOid : Bytes)
  deriving DecidableEq, Repr

namespace Finding

/-- The name of the kind of problem. -/
def kindName : Finding → Bytes
  | corruptObject _ _ => ascii "corruptObject"
  | openError _ _ _ => ascii "openError"
  | nonCanonicalPointer _ _ => ascii "nonCanonicalPointer"
  | unexpectedGitObject _ _ => ascii "unexpectedGitObject"

/-- The object concerned, if the problem has one. -/
def oid : Finding → Bytes
  | corruptObject _ oid | openError _ oid _ | nonCanonicalPointer oid _ => oid
  | unexpectedGitObject _ _ => []

/-- The blob that holds the pointer concerned, if the problem has one. -/
def blobOid : Finding → Bytes
  | nonCanonicalPointer _ blobOid => blobOid
  | _ => []

/-- The tree entry concerned, if the problem has one. -/
def treeOid : Finding → Bytes
  | unexpectedGitObject _ treeOid => treeOid
  | _ => []

/-- The path in history, if the problem has one. -/
def path : Finding → Bytes
  | corruptObject name _ | openError name _ _ => name
  | unexpectedGitObject path _ => path
  | nonCanonicalPointer _ _ => []

/-- The problem in words. -/
def message : Finding → Bytes
  | corruptObject name oid => name ++ ascii " (" ++ oid ++ ascii ") is corrupt"
  | openError name oid reason =>
    name ++ ascii " (" ++ oid ++ ascii ") could not be checked: " ++ reason
  | nonCanonicalPointer oid blobOid =>
    ascii "Pointer for " ++ oid ++ ascii " (blob " ++ blobOid ++ ascii ") was not canonical"
  | unexpectedGitObject path treeOid =>
    ascii "\"" ++ path ++ ascii "\" (treeish " ++ treeOid ++
      ascii ") should have been a pointer but was not"

/-- Whether the problem is one of an object in the store. -/
def isObjectFinding : Finding → Bool
  | corruptObject _ _ | openError _ _ _ => true
  | _ => false

/-- The line that reports the problem. -/
def line (finding : Finding) : Bytes :=
  (if finding.isObjectFinding then ascii "objects" else ascii "pointer") ++ ascii ": " ++
    finding.kindName ++ ascii ": " ++ finding.message

end Finding

end StoreAudit
