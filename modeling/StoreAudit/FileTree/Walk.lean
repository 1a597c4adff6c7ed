import StoreAudit.FileTree.Basic
import StoreAudit.Text.Split
import StoreAudit.Failure.Errno

/-!
# Walking along paths

A path is walked name by name from the root or the working directory. A link on the way is replaced
by its target; a link at the end is replaced only if the caller follows it. The walk ends at a
directory that was reached as itself or at a name in a directory, which may be vacant.
-/

namespace StoreAudit

/-- Where a walk ends. -/
inductive Spot where
  /-- A directory reached as such: the root, or by a name that stands for a directory. -/
  | itself (place : Place)
  /-- A name in a directory. -/
  | named (above : Place) (name : Bytes)
  deriving DecidableEq, Repr

/-- The place of a spot. -/
def Spot.place : Spot → Place
  | itself place => place
  | named above name => above ++ [name]

namespace FileTree

/-- The number of links that one walk may replace. -/
def maxLinks : Nat := 40

/-- The longest name. -/
def maxNameLength : Nat := 255

/-- Paths of this length and more are refused. -/
def maxPathLength : Nat := 4096

/-- The name of the directory itself. -/
def here : Bytes := ascii "."

/-- The name of the directory above. -/
def parent : Bytes := ascii ".."

/-- The names in a path. -/
def names (path : Bytes) : List Bytes :=
  (Bytes.split Ascii.slash path).filter fun name => !name.isEmpty

/-- The names in a path that is used as a whole: a trailing slash asks for a directory. -/
def steps (path : Bytes) : List Bytes :=
  if path.endsWith [Ascii.slash] then names path ++ [here] else names path

/-- Where a path starts. -/
def origin (relativeTo : Place) (path : Bytes) : Place :=
  if path.head? = some Ascii.slash then [] else relativeTo

/-- How far a walk gets before it has to replace a link. -/
inductive Stride where
  | ended (spot : Spot)
  | link (above : Place) (target : Bytes) (rest : List Bytes)

/-- What stands at a name in a directory, if anything; overlong names are refused. -/
def lookUp (tree : FileTree) (above : Place) (name : Bytes) : Except Errno (Option Entry) :=
  if name.length > maxNameLength then .error .nameTooLong else .ok (tree.get? (above ++ [name]))

/-- Walks along names up to the next link. The last name is looked up only if it is followed. -/
def stride (tree : FileTree) (follow : Bool) (place : Place) : List Bytes → Except Errno Stride
  | [] => .ok (.ended (.itself place))
  | name :: rest =>
    if name = here then tree.stride follow place rest
    else if name = parent then tree.stride follow place.dropLast rest
    else if rest.isEmpty && !follow then .ok (.ended (.named place name))
    else match tree.lookUp place name with
      | .error errno => .error errno
      | .ok (some (.link target)) => .ok (.link place target rest)
      | .ok found =>
        if rest.isEmpty then .ok (.ended (.named place name))
        else match found with
          | none => .error .noEntry
          | some entry =>
            if entry.isDirectory then tree.stride follow (place ++ [name]) rest
            else .error .notDirectory

/-- Walks along names, replacing at most `links` links. -/
def walk (tree : FileTree) (follow : Bool) : Nat → Place → List Bytes → Except Errno Spot
  | links, place, path =>
    match tree.stride follow place path with
    | .error errno => .error errno
    | .ok (.ended spot) => .ok spot
    | .ok (.link above target rest) =>
      match links with
      | 0 => .error .linkLoop
      | left + 1 => tree.walk follow left (origin above target) (steps target ++ rest)

/-- What is wrong with a path before it is walked, if anything. -/
def refusal? (path : Bytes) : Option Errno :=
  if path.isEmpty then some .noEntry
  else if path.length ≥ maxPathLength then some .nameTooLong
  else none

/-- The spot of a path whose last name is not followed. -/
def spotOf (tree : FileTree) (path : Bytes) : Except Errno Spot :=
  let path := path.beforeNul
  match refusal? path with
  | some errno => .error errno
  | none => tree.walk false maxLinks (origin tree.workDir path) (names path)

/-- The place that a path names when its last name is followed, and what stands there. -/
def entryOf (tree : FileTree) (path : Bytes) : Except Errno (Place × Entry) :=
  let path := path.beforeNul
  match refusal? path with
  | some errno => .error errno
  | none =>
    match tree.walk true maxLinks (origin tree.workDir path) (steps path) with
    | .error errno => .error errno
    | .ok spot =>
      match tree.get? spot.place with
      | none => .error .noEntry
      | some entry => .ok (spot.place, entry)

end FileTree

end StoreAudit
