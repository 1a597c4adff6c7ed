import StoreAudit.Failure.Basic
import StoreAudit.FileTree.Access
import StoreAudit.Text.PathName

/-!
# Changing files

Each change either happens or leaves the tree alone and says why. When several things are wrong, the
first in this order counts: the paths themselves, the walk to the directory above, and then the
name.
-/

namespace StoreAudit.FileTree

/-- Puts an entry at a vacant place. -/
def create (tree : FileTree) (above : Place) (name : Bytes) (entry : Entry) :
    Except Errno FileTree :=
  match tree.get? above with
  | some .directory => .ok (tree.put (above ++ [name]) entry)
  | _ => .error .noEntry

/-- Makes a directory. -/
def makeDirectory (tree : FileTree) (path : Bytes) : Except Errno FileTree :=
  match tree.spotOf path with
  | .error errno => .error errno
  | .ok (.itself _) => .error .alreadyExists
  | .ok (.named above name) =>
    match tree.lookUp above name with
    | .error errno => .error errno
    | .ok (some _) => .error .alreadyExists
    | .ok none => tree.create above name .directory

/-- The path and the paths above it, as text, up to the root or the first name. -/
def ancestors (path : Bytes) : List Bytes := climb path.length path
where
  /-- Each path above is shorter, so the length bounds the steps. -/
  climb : Nat → Bytes → List Bytes
    | 0, _ => []
    | left + 1, path =>
      if path.isEmpty then []
      else
        let above := PathName.directory path
        path :: if above = path then [] else climb left above

/-- The paths to make for a directory to be there, outermost first. -/
def missingDirectories (tree : FileTree) (path : Bytes) : List Bytes :=
  ((ancestors path).takeWhile fun path => !tree.isDirectory path).reverse

/-- Makes directories one after the other; one that is there is fine, anything else in the way is
not. What was made before an error stays. -/
def makeEach (tree : FileTree) : List Bytes → FileTree × Except Errno Unit
  | [] => (tree, .ok ())
  | path :: rest =>
    match tree.makeDirectory path with
    | .ok made => made.makeEach rest
    | .error errno =>
      if errno ≠ .alreadyExists then (tree, .error errno)
      else if tree.isDirectory path then tree.makeEach rest
      else (tree, .error .notDirectory)

/-- Makes a directory and the directories above it that are missing. -/
def makeDirectories (tree : FileTree) (path : Bytes) : FileTree × Except Errno Unit :=
  tree.makeEach (tree.missingDirectories path)

/-- Makes a link. -/
def makeLink (tree : FileTree) (target path : Bytes) : Except Errno FileTree :=
  let target := target.beforeNul
  match refusal? target with
  | some errno => .error errno
  | none =>
    match tree.spotOf path with
    | .error errno => .error errno
    | .ok (.itself _) => .error .alreadyExists
    | .ok (.named above name) =>
      match tree.lookUp above name with
      | .error errno => .error errno
      | .ok (some _) => .error .alreadyExists
      | .ok none =>
        if path.beforeNul.endsWith [Ascii.slash] then .error .noEntry
        else tree.create above name (.link target)

/-- Removes the name of something that is no directory. -/
def remove (tree : FileTree) (path : Bytes) : Except Errno FileTree :=
  match tree.spotOf path with
  | .error errno => .error errno
  | .ok (.itself _) => .error .isDirectory
  | .ok (.named above name) =>
    match tree.lookUp above name with
    | .error errno => .error errno
    | .ok none => .error .noEntry
    | .ok (some entry) =>
      if entry.isDirectory then .error .isDirectory
      else if path.beforeNul.endsWith [Ascii.slash] then .error .notDirectory
      else .ok (tree.erase (above ++ [name]))

/-- Renames the entry at one place to another place, where `old` stands. -/
def replace (tree : FileTree) (source target : Place) (entry : Entry) (old : Option Entry) :
    Except Errno FileTree :=
  let moved := (tree.erase target).move source target
  match old with
  | none => .ok moved
  | some old =>
    match entry.isDirectory, old.isDirectory with
    | true, false => .error .notDirectory
    | false, true => .error .isDirectory
    | true, true => if tree.hasChildren target then .error .notEmpty else .ok moved
    | false, false => .ok moved

/-- Renames something; a directory cannot move below itself and only replaces an empty directory,
and nothing else replaces a directory. A trailing slash on either path is for directories only. -/
def rename (tree : FileTree) (source target : Bytes) : Except Errno FileTree :=
  match tree.spotOf source, tree.spotOf target with
  | .error errno, _ | .ok _, .error errno => .error errno
  | .ok (.itself _), .ok _ | .ok (.named _ _), .ok (.itself _) => .error .busy
  | .ok (.named sourceAbove sourceName), .ok (.named targetAbove targetName) =>
    match tree.lookUp sourceAbove sourceName, tree.lookUp targetAbove targetName with
    | .error errno, _ => .error errno
    | .ok none, _ => .error .noEntry
    | .ok (some _), .error errno => .error errno
    | .ok (some entry), .ok old =>
      let before := sourceAbove ++ [sourceName]
      let after := targetAbove ++ [targetName]
      let asDirectory := source.beforeNul.endsWith [Ascii.slash] ||
        target.beforeNul.endsWith [Ascii.slash]
      if asDirectory && !entry.isDirectory then .error .notDirectory
      else if before = after then .ok tree
      else if before.isPrefixOf after then .error .invalid
      else if after.isPrefixOf before then .error .notEmpty
      else tree.replace before after entry old

/-- Where a path that is opened for writing leads: its links are followed, also one that leads
nowhere yet. -/
def spotToWrite (tree : FileTree) (path : Bytes) : Except Errno Spot :=
  match tree.spotOf path with
  | .error errno => .error errno
  | .ok (.itself _) => .error .isDirectory
  | .ok (.named _ _) =>
    let path := path.beforeNul
    if path.endsWith [Ascii.slash] then .error .isDirectory
    else tree.walk true maxLinks (origin tree.workDir path) (names path)

/-- Opens a file for writing: its place, what it holds, and the tree in which it exists. -/
def openForWriting (tree : FileTree) (path : Bytes) : Except Errno (FileTree × Place × Entry) :=
  match tree.spotToWrite path with
  | .error errno => .error errno
  | .ok (.itself _) => .error .isDirectory
  | .ok (.named above name) =>
    let place := above ++ [name]
    match tree.get? place with
    | none => (tree.create above name (.file [])).map fun made => (made, place, .file [])
    | some entry =>
      if entry.isDirectory then .error .isDirectory else .ok (tree, place, entry)

/-- Writes a whole file: the error, if any, comes from opening it or from a device without room. -/
def writeFile (tree : FileTree) (path data : Bytes) : FileTree × Except Errno Unit :=
  match tree.openForWriting path with
  | .error errno => (tree, .error errno)
  | .ok (opened, place, entry) =>
    match entry with
    | .device hasRoom =>
      (opened, if hasRoom || data.isEmpty then .ok () else .error .noSpace)
    | _ => (opened.put place (.file data), .ok ())

/-- Appends to the file at a place. -/
def append (tree : FileTree) (place : Place) (data : Bytes) : FileTree :=
  match tree.get? place with
  | some (.file old) => tree.put place (.file (old ++ data))
  | _ => tree

/-- Removes something with everything below it; a link is removed and not followed. A directory that
is reached as such is emptied and stays. -/
def discard (tree : FileTree) (path : Bytes) : FileTree × Except Errno Unit :=
  match tree.spotOf path with
  | .error errno => (tree, .error errno)
  | .ok (.itself place) => (tree.eraseBelow place, .error .invalid)
  | .ok (.named above name) => ((tree.eraseBelow (above ++ [name])).erase (above ++ [name]), .ok ())

/-- Removes what a path names with everything below it. A path that leads nowhere is fine, and so is
a link that does; neither is touched. -/
def removeTree (tree : FileTree) (path : Bytes) : FileTree × Except Failure Unit :=
  if tree.pathExists path then
    let (changed, outcome) := tree.discard path
    (changed, outcome.mapError fun errno => .inCall (ascii "nftw(" ++ path ++ ascii ")") errno)
  else (tree, .ok ())

/-- What the name of a temporary directory ends with before it is made. -/
def temporarySuffix : Bytes := ascii "XXXXXX"

/-- Where temporary directories are made unless the user wants them elsewhere. -/
def temporaryParent : Bytes := ascii "/tmp"

/-- Makes a directory of a new name that starts with a given text, and returns its path; the suffix
makes the name new. -/
def makeTemporary (tree : FileTree) (parent : Option Bytes) (start suffix : Bytes) :
    Except Failure (FileTree × Bytes) :=
  let template := (parent.getD temporaryParent).beforeNul ++ Ascii.slash :: start ++ temporarySuffix
  let failed := fun errno =>
    Except.error (Failure.inCall (ascii "mkdtemp(" ++ template ++ ascii ")") errno)
  let shown := template.beforeNul
  if shown.endsWith temporarySuffix then
    let path := shown.take (shown.length - temporarySuffix.length) ++ suffix
    match tree.makeDirectory path with
    | .ok made => .ok (made, path)
    | .error errno => failed errno
  else failed .invalid

end StoreAudit.FileTree
