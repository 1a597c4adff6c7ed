import StoreAudit.FileTree.Walk
import StoreAudit.Digest.Stream

/-!
# Looking at files

What a path names: whether there is anything, whether it is a directory, what it holds, and where it
really is.
-/

namespace StoreAudit.FileTree

/-- Whether a path names something. -/
def pathExists (tree : FileTree) (path : Bytes) : Bool := (tree.entryOf path).toOption.isSome

/-- Whether a path names a directory. -/
def isDirectory (tree : FileTree) (path : Bytes) : Bool :=
  match tree.entryOf path with
  | .ok (_, entry) => entry.isDirectory
  | .error _ => false

/-- What reading an entry from an offset delivers. -/
def reading (offset : Nat) : Entry → Reading Errno
  | .file data => ⟨[data.drop offset], none⟩
  | .directory | .sealedDirectory => ⟨[], some .isDirectory⟩
  | .link _ | .device _ => ⟨[], none⟩

/-- Opens a file for reading, or says why not. -/
def openForReading (tree : FileTree) (path : Bytes) (offset : Nat) : Except Errno (Reading Errno) :=
  match tree.entryOf path with
  | .ok (_, entry) => .ok (reading offset entry)
  | .error errno => .error errno

/-- How a descriptor is opened. -/
inductive OpenMode where
  | forReading
  | forWriting
  deriving DecidableEq, Repr

/-- What the reads of an entry give from an offset on. -/
def reads (offset : Nat) : Entry → List ReadResult
  | .file data => ReadResult.ofContent data offset
  | .directory | .sealedDirectory => [.error .isDirectory]
  | .link _ | .device _ => [.ok []]

/-- What the reads of a descriptor give. A file that cannot be opened or is open for writing only
cannot be read. -/
def readsOf (tree : FileTree) (path : Bytes) (mode : OpenMode) (offset : Nat) : List ReadResult :=
  match mode, tree.entryOf path with
  | .forReading, .ok (_, entry) => reads offset entry
  | _, _ => [.error .badDescriptor]

/-- What the caller holds after a file was hashed from an offset on. -/
def hashInto (tree : FileTree) (path : Bytes) (mode : OpenMode) (offset : Nat)
    (held : HashResult) : Int × HashResult :=
  held.hashReads (tree.readsOf path mode offset)

/-- The target of a link. -/
def readLink? (tree : FileTree) (path : Bytes) : Option Bytes :=
  match tree.spotOf path with
  | .ok spot =>
    match tree.get? spot.place with
    | some (.link target) => if path.beforeNul.endsWith [Ascii.slash] then none else some target
    | _ => none
  | .error _ => none

/-- The absolute path of a place. -/
def pathOf (place : Place) : Bytes :=
  if place.isEmpty then [Ascii.slash]
  else place.flatMap fun (name : Bytes) => Ascii.slash :: name

/-- The absolute path without links of what a path names, unless it is too long to be used. -/
def realPath? (tree : FileTree) (path : Bytes) : Option Bytes :=
  let path := path.beforeNul
  if path.isEmpty then none
  else match tree.walk true maxLinks (origin tree.workDir path) (steps path) with
    | .ok spot =>
      let real := pathOf spot.place
      if (tree.get? spot.place).isSome && real.length < maxPathLength then some real else none
    | .error _ => none

end StoreAudit.FileTree
