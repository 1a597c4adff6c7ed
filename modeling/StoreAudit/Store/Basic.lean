import StoreAudit.Digest.Basic
import StoreAudit.Session

/-!
# The object store

A store is a directory. An object lies below `objects` at a path made of its own name, so no content
can choose its place; objects taken out of service lie below `bad`.
-/

namespace StoreAudit

/-- A store, by the path of its directory. -/
structure Store where
  root : Bytes
  deriving DecidableEq, Repr

namespace Store

/-- The store at a path, whose trailing slashes do not count. -/
def ofPath (path : Bytes) : Store := ⟨Bytes.dropTrailing Ascii.slash path⟩

/-- The path of an object with a valid name. -/
def pathOf (store : Store) (oid : Bytes) : Bytes :=
  store.root ++ ascii "/objects/" ++ oid.take 2 ++ Ascii.slash :: (oid.drop 2).take 2 ++
    Ascii.slash :: oid

/-- The path of an object; a text that is no object name has none. -/
def objectPath (store : Store) (oid : Bytes) : Except Failure Bytes :=
  if Digest.isText oid then .ok (store.pathOf oid) else .error (.invalidObjectName oid)

/-- The directory of objects taken out of service. -/
def quarantine (store : Store) : Bytes := store.root ++ ascii "/bad"

/-- The path of an object that is out of service. -/
def quarantinePath (store : Store) (oid : Bytes) : Bytes := PathName.join store.quarantine oid

/-- The path of the journal. -/
def journalPath (store : Store) : Bytes := store.root ++ ascii "/logs/lfs.log"

/-- The path of the lock. -/
def lockPath (store : Store) : Bytes := store.root ++ ascii "/fsck.lock"

/-- What came of putting data where an object belongs. -/
structure Placement where
  path : Bytes
  made : Except Errno Unit
  written : Except Errno Unit

/-- Puts data where the object of a name belongs, whether or not it has that name. -/
def place (store : Store) (files : FileTree) (oid data : Bytes) :
    FileTree × Except Failure Placement :=
  match store.objectPath oid with
  | .error failure => (files, .error failure)
  | .ok path =>
    let (prepared, made) := files.makeDirectories (PathName.directory path)
    let (changed, written) := prepared.writeFile path data
    (changed, .ok { path, made, written })

/-- Writes a content to its place and returns its name. -/
def add (store : Store) (content : Bytes) : Audit Bytes := do
  let oid := Digest.nameOf content
  let path ← store.objectPath oid
  Audit.change (ascii "mkdir(" ++ path ++ ascii ")") (.makeDirectories (PathName.directory path))
  Audit.change (ascii "write(" ++ path ++ ascii ")") (.write path content)
  pure oid

end Store

end StoreAudit
