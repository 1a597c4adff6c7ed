import StoreAudit.Text.Bytes

/-!
# Path names as text

The last component of a path, the path above it, and joining the two. These rules look at the text
only and not at any file tree.
-/

namespace StoreAudit.PathName

/-- What follows the last slash, or the whole path without one. -/
def base (path : Bytes) : Bytes := (path.reverse.takeWhile (· != Ascii.slash)).reverse

/-- What precedes the last slash: nothing without one, and the root when the only slash before the
last component is the leading one. -/
def directory (path : Bytes) : Bytes :=
  match path.reverse.dropWhile (· != Ascii.slash) with
  | [] => []
  | [_] => [Ascii.slash]
  | _ :: above => above.reverse

/-- A name below a directory; the empty directory is the current one. -/
def join (above name : Bytes) : Bytes :=
  if above.isEmpty then name
  else if above.getLast? = some Ascii.slash then above ++ name
  else above ++ Ascii.slash :: name

/-- The path above a path is the root or strictly shorter. -/
theorem length_directory_lt {path : Bytes} (nonempty : path ≠ [])
    (notRoot : directory path ≠ path) : (directory path).length < path.length := by
  have bound : (path.reverse.dropWhile (· != Ascii.slash)).length ≤ path.length := by
    simpa using (List.dropWhile_suffix (l := path.reverse) (· != Ascii.slash)).length_le
  have positive : 0 < path.length := List.length_pos_iff.mpr nonempty
  unfold directory at *
  split at * <;> rename_i shape <;> rw [shape] at bound
  · simpa using positive
  · rename_i first
    have : path.length ≠ 1 := by
      intro single
      match path, single with
      | [byte], _ =>
        apply notRoot
        by_cases isSlash : byte = Ascii.slash
        · simp [isSlash]
        · simp [isSlash] at shape
    simp only [List.length_cons, List.length_nil] at *
    omega
  · simp only [List.length_cons, List.length_reverse] at *
    omega

end StoreAudit.PathName
