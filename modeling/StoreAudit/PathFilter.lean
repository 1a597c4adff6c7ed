import StoreAudit.Glob.Basic

/-!
# Path filters

A filter admits a path when some include pattern covers it (or there is none) and no exclude pattern
does. A pattern without a slash covers a path with a matching component. A pattern with a slash is
anchored at the top and covers a matching path and everything below it; only a pattern with a double
star may match slashes by wildcards.
-/

namespace StoreAudit

/-- Include and exclude patterns. -/
structure PathFilter where
  included : List Bytes := []
  excluded : List Bytes := []
  deriving DecidableEq, Repr

namespace PathFilter

/-- The patterns of a comma-separated list, trimmed, without the empty ones. -/
def parseList (list : Bytes) : List Bytes :=
  ((Bytes.split Ascii.comma list).map Bytes.trim).filter fun pattern => !pattern.isEmpty

/-- A pattern without trailing slashes, keeping at least one byte, and without one leading `./`. -/
def normalize (pattern : Bytes) : Bytes :=
  let pattern := Bytes.dropTrailing Ascii.slash pattern
  if pattern.startsWith (ascii "./") then pattern.drop 2 else pattern

/-- The paths that contain a path: itself and what stands before each of its slashes, from the
longest to the shortest, as long as they are not empty. -/
def enclosing (path : Bytes) : List Bytes := climb path.length path
where
  /-- Each step drops at least a slash, so the length bounds the steps. -/
  climb : Nat → Bytes → List Bytes
    | 0, _ => []
    | left + 1, path =>
      if path.isEmpty then []
      else path :: match path.reverse.dropWhile (· != Ascii.slash) with
        | [] => []
        | _ :: above => climb left above.reverse

/-- Whether a pattern covers a path, when `accepts` tells which patterns match which texts. -/
def coversBy (accepts : Glob.SlashRule → Bytes → Bytes → Bool) (pattern path : Bytes) : Bool :=
  let pattern := normalize pattern
  if pattern.isEmpty then false
  else if pattern.contains Ascii.slash then
    let anchored := if pattern.head? = some Ascii.slash then pattern.tail else pattern
    (enclosing path).any (accepts (Glob.slashRule anchored) anchored)
  else (Bytes.split Ascii.slash path).any (accepts .ordinary pattern)

/-- Whether a pattern covers a path. -/
def covers (pattern path : Bytes) : Bool := coversBy Glob.accepts pattern path

/-- Whether the filter admits a path, when `accepts` tells which patterns match which texts. -/
def allowsBy (accepts : Glob.SlashRule → Bytes → Bytes → Bool) (filter : PathFilter)
    (path : Bytes) : Bool :=
  (filter.included.isEmpty || filter.included.any (coversBy accepts · path)) &&
    !filter.excluded.any (coversBy accepts · path)

/-- Whether the filter admits a path. -/
def allows (filter : PathFilter) (path : Bytes) : Bool := filter.allowsBy Glob.accepts path

/-- Whether the filter has no pattern at all. -/
def isEmpty (filter : PathFilter) : Bool := filter.included.isEmpty && filter.excluded.isEmpty

end PathFilter

end StoreAudit
