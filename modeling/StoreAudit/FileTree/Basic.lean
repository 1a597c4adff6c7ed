import StoreAudit.Text.Bytes

/-!
# File trees

A file tree says what stands at each place. A place is the list of names from the root down to it,
so different places are never the same entry and there are no hard links. The root is always a
directory.
-/

namespace StoreAudit

/-- The names from the root down to an entry. -/
abbrev Place := List Bytes

/-- What stands at a place. -/
inductive Entry where
  | file (data : Bytes)
  | directory
  /-- A directory in which no name can be made. -/
  | sealedDirectory
  | link (target : Bytes)
  /-- A device that holds nothing; it accepts any bytes if it has room and none otherwise. -/
  | device (hasRoom : Bool)
  deriving DecidableEq, Repr

/-- Entries by place, and the directory where relative paths start. -/
structure FileTree where
  entries : List (Place × Entry) := []
  workDir : Place := []
  deriving DecidableEq, Repr

namespace Entry

/-- Whether names can be looked up below the entry. -/
def isDirectory : Entry → Bool
  | directory | sealedDirectory => true
  | _ => false

end Entry

namespace FileTree

/-- The entry at a place. -/
def get? (tree : FileTree) (place : Place) : Option Entry :=
  if place.isEmpty then some .directory else tree.entries.lookup place

/-- The tree with an entry at a place, in place of what stands there. -/
def put (tree : FileTree) (place : Place) (entry : Entry) : FileTree :=
  { tree with
    entries :=
      if (tree.entries.lookup place).isSome then
        tree.entries.map fun (other, old) => (other, if other = place then entry else old)
      else (place, entry) :: tree.entries }

/-- The tree without the entry at a place. -/
def erase (tree : FileTree) (place : Place) : FileTree :=
  { tree with entries := tree.entries.filter fun (other, _) => other ≠ place }

/-- The tree without everything below a place. -/
def eraseBelow (tree : FileTree) (place : Place) : FileTree :=
  { tree with
    entries := tree.entries.filter fun (other, _) =>
      !(place.isPrefixOf other && other ≠ place) }

/-- Whether something stands directly below a place. -/
def hasChildren (tree : FileTree) (place : Place) : Bool :=
  tree.entries.any fun (other, _) => place.isPrefixOf other && other ≠ place

/-- The tree with an entry and everything below it at another place. -/
def move (tree : FileTree) (source target : Place) : FileTree :=
  { tree with
    entries := tree.entries.map fun (other, entry) =>
      (if source.isPrefixOf other then target ++ other.drop source.length else other, entry) }

@[simp] theorem get?_nil (tree : FileTree) : tree.get? [] = some .directory := rfl

private theorem lookup_eq_none_of_filter (entries : List (Place × Entry)) (place : Place) :
    (entries.filter fun (other, _) => other ≠ place).lookup place = none := by
  induction entries with
  | nil => rfl
  | cons first rest ih =>
    obtain ⟨other, entry⟩ := first
    by_cases same : other = place
    · simpa [List.filter_cons, same] using ih
    · have apart : (place == other) = false := by simpa using Ne.symm same
      simpa [List.filter_cons, same, List.lookup_cons, apart] using ih

private theorem lookup_filter_of_ne (entries : List (Place × Entry)) {place kept : Place}
    (apart : kept ≠ place) :
    (entries.filter fun (other, _) => other ≠ place).lookup kept = entries.lookup kept := by
  induction entries with
  | nil => rfl
  | cons first rest ih =>
    obtain ⟨other, entry⟩ := first
    by_cases same : other = place
    · subst same
      have skip : (kept == other) = false := by simpa using apart
      simpa [List.filter_cons, List.lookup_cons, skip] using ih
    · simp only [ne_eq, same, not_false_eq_true, decide_true, List.filter_cons_of_pos,
        List.lookup_cons]
      rw [← ih]

private theorem lookup_map_replace (entries : List (Place × Entry)) (place wanted : Place)
    (entry : Entry) :
    (entries.map fun (other, old) => (other, if other = place then entry else old)).lookup wanted =
      (entries.lookup wanted).map fun old => if wanted = place then entry else old := by
  induction entries with
  | nil => rfl
  | cons first rest ih =>
    obtain ⟨other, old⟩ := first
    by_cases same : wanted = other
    · subst same
      simp
    · have skip : (wanted == other) = false := by simpa using same
      simpa [List.lookup_cons, skip] using ih

/-- What is put at a place is found there. -/
theorem get?_put_self (tree : FileTree) {place : Place} (entry : Entry) (below : place ≠ []) :
    (tree.put place entry).get? place = some entry := by
  have nonempty : place.isEmpty = false := by simpa using below
  unfold get? put
  rw [nonempty]
  by_cases taken : (tree.entries.lookup place).isSome = true
  · simp only [taken, if_true, Bool.false_eq_true, if_false]
    rw [lookup_map_replace]
    obtain ⟨old, found⟩ := Option.isSome_iff_exists.mp taken
    simp [found]
  · simp [taken]

/-- Putting an entry at a place leaves the other places alone. -/
theorem get?_put_of_ne (tree : FileTree) {place other : Place} (entry : Entry)
    (apart : other ≠ place) : (tree.put place entry).get? other = tree.get? other := by
  unfold get? put
  by_cases top : other.isEmpty = true
  · simp [top]
  · by_cases taken : (tree.entries.lookup place).isSome = true
    · simp only [top, taken, if_true, Bool.false_eq_true, if_false]
      rw [lookup_map_replace]
      simp [apart]
    · have skip : (other == place) = false := by simpa using apart
      simp [top, taken, List.lookup_cons, skip]

/-- What is erased is not found any more. -/
theorem get?_erase_self (tree : FileTree) {place : Place} (below : place ≠ []) :
    (tree.erase place).get? place = none := by
  have nonempty : place.isEmpty = false := by simpa using below
  unfold get? erase
  simpa [nonempty] using lookup_eq_none_of_filter tree.entries place

/-- Erasing a place leaves the other places alone. -/
theorem get?_erase_of_ne (tree : FileTree) {place other : Place} (apart : other ≠ place) :
    (tree.erase place).get? other = tree.get? other := by
  unfold get? erase
  by_cases top : other.isEmpty = true
  · simp [top]
  · simpa [top] using lookup_filter_of_ne tree.entries apart

end FileTree

end StoreAudit
