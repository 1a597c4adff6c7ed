import Mathlib.Data.List.Induction
import StoreAudit.FileTree.Change
import StoreAudit.Proofs.FileTree.Walk

/-!
# What changes to files leave

What stands where after a change that happened, in terms of what stood there before. Making
directories only adds directories (`FileTree.makeDirectories_gains`), and a renamed entry stands
with everything below it at its new place and nowhere else (`FileTree.Moved`).
-/

namespace StoreAudit.FileTree

/-- Whatever has a name stands in a directory. -/
def IsTree (tree : FileTree) : Prop :=
  ∀ above name entry, tree.get? (above ++ [name]) = some entry →
    ∃ parent, tree.get? above = some parent ∧ parent.isDirectory = true

/-- What is at a place below the root is looked up among the entries. -/
theorem get?_eq_lookup (tree : FileTree) {place : Place} (below : place ≠ []) :
    tree.get? place = tree.entries.lookup place := by
  cases place with
  | nil => exact absurd rfl below
  | cons name rest => rfl

private theorem lookup_eq_none_iff {entries : List (Place × Entry)} {place : Place} :
    entries.lookup place = none ↔ ∀ pair ∈ entries, pair.1 ≠ place := by
  induction entries with
  | nil => simp
  | cons first rest ih =>
      obtain ⟨other, entry⟩ := first
      by_cases same : place = other
      · simp [same]
      · have skip : (place == other) = false := by simpa using same
        simp [List.lookup_cons, skip, ih, Ne.symm same]

/-- What a look-up finds is an entry. -/
theorem mem_of_lookup {entries : List (Place × Entry)} {place : Place} {entry : Entry}
    (found : entries.lookup place = some entry) : (place, entry) ∈ entries := by
  induction entries with
  | nil => simp at found
  | cons first rest ih =>
      obtain ⟨other, old⟩ := first
      by_cases same : place = other
      · subst same
        simp only [List.lookup_cons, beq_self_eq_true, Option.some.injEq] at found
        simp [found]
      · have skip : (place == other) = false := by simpa using same
        rw [List.lookup_cons, skip] at found
        exact List.mem_cons_of_mem _ (ih found)

/-- It is enough to look at the entries. -/
theorem isTree_of_entries {tree : FileTree}
    (closed : ∀ pair ∈ tree.entries, (tree.get? pair.1.dropLast).any Entry.isDirectory = true) :
    tree.IsTree := by
  intro above name entry found
  rw [get?_eq_lookup tree (by simp)] at found
  have parent := closed _ (mem_of_lookup found)
  rw [List.dropLast_concat] at parent
  rwa [Option.any_eq_true] at parent

/-- A new entry needs a directory that can be changed above it. -/
theorem create_eq_ok {tree made : FileTree} {above : Place} {name : Bytes} {entry : Entry}
    (created : tree.create above name entry = .ok made) :
    tree.get? above = some .directory ∧ made = tree.put (above ++ [name]) entry := by
  unfold create at created
  split at created
  · rename_i found
    cases created
    exact ⟨found, rfl⟩
  · cases created

/-- A look-up finds what is there, for names of a length that is allowed. -/
theorem lookUp_eq_ok {tree : FileTree} {above : Place} {name : Bytes} {found : Option Entry}
    (looked : tree.lookUp above name = .ok found) :
    name.length ≤ maxNameLength ∧ tree.get? (above ++ [name]) = found := by
  unfold lookUp at looked
  split at looked
  · cases looked
  · rename_i fits
    exact ⟨Nat.le_of_not_lt fits, Except.ok.inj looked⟩

/-- A new directory is made where nothing was. -/
theorem makeDirectory_eq_ok {tree made : FileTree} {path : Bytes}
    (happened : tree.makeDirectory path = .ok made) :
    ∃ above name, tree.spotOf path = .ok (.named above name) ∧ name.length ≤ maxNameLength ∧
      tree.get? (above ++ [name]) = none ∧ tree.get? above = some .directory ∧
      made = tree.put (above ++ [name]) .directory := by
  unfold makeDirectory at happened
  split at happened
  · cases happened
  · cases happened
  · rename_i above name spot
    split at happened
    · cases happened
    · cases happened
    · rename_i looked
      obtain ⟨short, vacant⟩ := lookUp_eq_ok looked
      obtain ⟨directory, shape⟩ := create_eq_ok happened
      exact ⟨above, name, spot, short, vacant, directory, shape⟩

/-- What is put where nothing was is there then, and other places are as before. -/
theorem get?_put_vacant (tree : FileTree) {place : Place} {entry : Entry}
    (vacant : tree.get? place = none) (other : Place) :
    (tree.put place entry).get? other = if other = place then some entry else tree.get? other := by
  have below : place ≠ [] := by
    intro top
    simp [top] at vacant
  by_cases same : other = place
  · rw [if_pos same, same, get?_put_self tree entry below]
  · rw [if_neg same, get?_put_of_ne tree entry same]

/-- To put something where nothing was keeps all there was. -/
theorem keptIn_put_vacant (tree : FileTree) {place : Place} (entry : Entry)
    (vacant : tree.get? place = none) : tree.KeptIn (tree.put place entry) := by
  refine ⟨rfl, fun other old found => ⟨old, ?_, rfl⟩⟩
  rw [get?_put_vacant tree vacant, if_neg]
  · exact found
  · intro same
    rw [same, vacant] at found
    cases found

/-- To put something into a directory keeps a tree a tree. -/
theorem isTree_put_vacant {tree : FileTree} (isTree : tree.IsTree) {above : Place} {name : Bytes}
    {parent entry : Entry} (vacant : tree.get? (above ++ [name]) = none)
    (found : tree.get? above = some parent) (isDirectory : parent.isDirectory = true) :
    (tree.put (above ++ [name]) entry).IsTree := by
  have apart : above ≠ above ++ [name] := by simp
  intro place last other there
  rw [get?_put_vacant tree vacant] at there
  by_cases same : place ++ [last] = above ++ [name]
  · obtain ⟨rfl, -⟩ := List.append_inj' same rfl
    exact ⟨parent, by rw [get?_put_vacant tree vacant, if_neg apart, found], isDirectory⟩
  · rw [if_neg same] at there
    obtain ⟨old, foundOld, oldDirectory⟩ := isTree place last other there
    refine ⟨old, ?_, oldDirectory⟩
    rw [get?_put_vacant tree vacant, if_neg]
    · exact foundOld
    · intro same
      rw [same, vacant] at foundOld
      cases foundOld

/-- The later tree is the earlier one with some more directories, to each of which one of the paths
leads. -/
structure Gains (tree later : FileTree) (paths : List Bytes) : Prop where
  workDir : later.workDir = tree.workDir
  kept : ∀ place entry, tree.get? place = some entry → later.get? place = some entry
  gained : ∀ place entry, tree.get? place = none → later.get? place = some entry →
    entry = .directory ∧ ∃ path ∈ paths, later.entryOf path = .ok (place, .directory)

namespace Gains

variable {tree later last : FileTree} {paths more : List Bytes}

/-- To do nothing gains nothing. -/
theorem refl (tree : FileTree) (paths : List Bytes) : tree.Gains tree paths := by
  refine ⟨rfl, fun _ _ found => found, fun place entry vacant found => ?_⟩
  rw [vacant] at found
  cases found

private theorem keptIn (gains : tree.Gains later paths) : tree.KeptIn later :=
  ⟨gains.workDir, fun place entry found => ⟨entry, gains.kept place entry found, rfl⟩⟩

/-- Nothing that was gained is a link. -/
theorem noNewLink (gains : tree.Gains later paths) (place : Place) (target : Bytes)
    (shown : later.get? place = some (.link target)) : tree.get? place = some (.link target) := by
  cases found : tree.get? place with
  | none =>
      obtain ⟨impossible, -⟩ := gains.gained place _ found shown
      cases impossible
  | some entry =>
      have same := gains.kept place entry found
      rw [shown] at same
      exact same.symm

/-- What a path names it goes on naming. -/
theorem entryOf (gains : tree.Gains later paths) {path : Bytes} {place : Place} {entry : Entry}
    (found : tree.entryOf path = .ok (place, entry)) : later.entryOf path = .ok (place, entry) := by
  obtain ⟨fits, there, spot, same, reaches⟩ := entryOf_eq_ok_iff.mp found
  refine entryOf_eq_ok_iff.mpr ⟨fits, gains.kept place entry there, spot, same, ?_⟩
  rw [gains.workDir]
  exact reaches.keptIn gains.keptIn fun _ => gains.noNewLink

private theorem isDirectory (gains : tree.Gains later paths) {path : Bytes}
    (there : tree.isDirectory path = true) : later.isDirectory path = true := by
  obtain ⟨place, entry, found, isDirectory⟩ := isDirectory_iff.mp there
  exact isDirectory_iff.mpr ⟨place, entry, gains.entryOf found, isDirectory⟩

private theorem trans (first : tree.Gains later paths) (second : later.Gains last more) :
    tree.Gains last (paths ++ more) := by
  refine ⟨second.workDir.trans first.workDir,
    fun place entry found => second.kept place entry (first.kept place entry found),
    fun place entry vacant found => ?_⟩
  cases between : later.get? place with
  | none =>
      obtain ⟨isDirectory, path, member, leads⟩ := second.gained place entry between found
      exact ⟨isDirectory, path, List.mem_append_right _ member, leads⟩
  | some other =>
      obtain ⟨rfl, path, member, leads⟩ := first.gained place other vacant between
      have same := second.kept place _ between
      rw [found, Option.some.injEq] at same
      exact ⟨same, path, List.mem_append_left _ member, second.entryOf leads⟩

private theorem mono (gains : tree.Gains later paths) (wider : ∀ path ∈ paths, path ∈ more) :
    tree.Gains later more := by
  refine ⟨gains.workDir, gains.kept, fun place entry vacant found => ?_⟩
  obtain ⟨isDirectory, path, member, leads⟩ := gains.gained place entry vacant found
  exact ⟨isDirectory, path, wider path member, leads⟩

end Gains

/-- A directory that was made is where its path leads. -/
theorem entryOf_of_put_directory {tree : FileTree} {path name : Bytes} {above : Place}
    (spot : tree.spotOf path = .ok (.named above name)) (short : name.length ≤ maxNameLength)
    (vacant : tree.get? (above ++ [name]) = none) :
    (tree.put (above ++ [name]) .directory).entryOf path = .ok (above ++ [name], .directory) := by
  have found :
      (tree.put (above ++ [name]) .directory).get? (above ++ [name]) = some .directory := by
    rw [get?_put_vacant tree vacant, if_pos rfl]
  have noLink (target : Bytes) :
      (tree.put (above ++ [name]) .directory).get? (above ++ [name]) ≠ some (.link target) := by
    rw [found]
    intro impossible
    cases impossible
  simp only [spotOf] at spot
  simp only [entryOf]
  split at spot
  · cases spot
  · have reaches := (walk_eq_ok_iff.mp spot).keptIn
      (keptIn_put_vacant tree .directory vacant) (by intro follows; cases follows)
    have workDir : (tree.put (above ++ [name]) .directory).workDir = tree.workDir := rfl
    rw [workDir]
    by_cases asDirectory : path.beforeNul.endsWith [Ascii.slash] = true
    · rw [steps, if_pos asDirectory, walk_eq_ok_iff.mpr (reaches.stayAtEnd short found rfl)]
      simp only [Spot.place, found]
    · rw [steps, if_neg asDirectory, walk_eq_ok_iff.mpr (reaches.follow short noLink)]
      simp only [Spot.place, found]

/-- Making a directory gains that directory. -/
theorem makeDirectory_gains {tree made : FileTree} {path : Bytes}
    (happened : tree.makeDirectory path = .ok made) :
    tree.Gains made [path] ∧ made.isDirectory path = true ∧ (tree.IsTree → made.IsTree) := by
  obtain ⟨above, name, spot, short, vacant, parent, rfl⟩ := makeDirectory_eq_ok happened
  have leads := entryOf_of_put_directory spot short vacant
  refine ⟨⟨rfl, ?_, ?_⟩, ?_, fun isTree => isTree_put_vacant isTree vacant parent rfl⟩
  · intro place entry found
    rw [get?_put_vacant tree vacant, if_neg]
    · exact found
    · intro same
      rw [same, vacant] at found
      cases found
  · intro place entry none found
    rw [get?_put_vacant tree vacant] at found
    by_cases same : place = above ++ [name]
    · rw [if_pos same, Option.some.injEq] at found
      exact ⟨found.symm, path, List.mem_cons_self, same ▸ leads⟩
    · rw [if_neg same, none] at found
      cases found
  · unfold isDirectory
    rw [leads]
    rfl

private theorem makeEach_gains (tree : FileTree) (paths : List Bytes) :
    tree.Gains (tree.makeEach paths).1 paths ∧ (tree.IsTree → (tree.makeEach paths).1.IsTree) ∧
      ((tree.makeEach paths).2 = .ok () →
        ∀ path ∈ paths, (tree.makeEach paths).1.isDirectory path = true) := by
  induction paths generalizing tree with
  | nil => exact ⟨.refl tree [], id, fun _ _ member => nomatch member⟩
  | cons path rest ih =>
      unfold makeEach
      split
      · rename_i made happened
        obtain ⟨gains, isDirectory, keepsTree⟩ := makeDirectory_gains happened
        obtain ⟨further, keepsFurther, complete⟩ := ih made
        refine ⟨gains.trans further, fun isTree => keepsFurther (keepsTree isTree), ?_⟩
        intro done other member
        rcases List.mem_cons.mp member with rfl | member
        · exact further.isDirectory isDirectory
        · exact complete done other member
      · split
        · exact ⟨.refl tree _, id, fun impossible => nomatch impossible⟩
        split
        · rename_i there
          obtain ⟨further, keepsFurther, complete⟩ := ih tree
          refine ⟨further.mono fun _ => List.mem_cons_of_mem _, keepsFurther, ?_⟩
          intro done other member
          rcases List.mem_cons.mp member with rfl | member
          · exact further.isDirectory there
          · exact complete done other member
        · exact ⟨.refl tree _, id, fun impossible => nomatch impossible⟩

/-- Making directories leaves the tree as it is or fills a vacant place. -/
theorem makeEach_cases (tree : FileTree) (paths : List Bytes) :
    (tree.makeEach paths).1 = tree ∨
      ∃ place, tree.get? place = none ∧ (tree.makeEach paths).1.get? place ≠ none := by
  induction paths generalizing tree with
  | nil => exact .inl rfl
  | cons path rest ih =>
      unfold makeEach
      split
      · rename_i made happened
        obtain ⟨above, name, -, -, vacant, -, shape⟩ := makeDirectory_eq_ok happened
        have there : made.get? (above ++ [name]) = some .directory := by
          rw [shape, get?_put_vacant tree vacant, if_pos rfl]
        refine .inr ⟨above ++ [name], vacant, ?_⟩
        rw [(makeEach_gains made rest).1.kept _ _ there]
        simp
      · split
        · exact .inl rfl
        split
        · exact ih tree
        · exact .inl rfl

/-- Making directories only adds directories where the path and the paths above it lead. -/
theorem makeDirectories_gains (tree : FileTree) (path : Bytes) :
    tree.Gains (tree.makeDirectories path).1 (ancestors path) := by
  refine (makeEach_gains tree _).1.mono fun other member => ?_
  rw [missingDirectories, List.mem_reverse] at member
  exact List.takeWhile_subset _ member

/-- Making directories keeps a tree a tree. -/
theorem makeDirectories_isTree {tree : FileTree} (isTree : tree.IsTree) (path : Bytes) :
    (tree.makeDirectories path).1.IsTree :=
  (makeEach_gains tree _).2.1 isTree

/-- Making directories, if it succeeds, leaves a directory at the path. -/
theorem isDirectory_of_makeDirectories {tree : FileTree} {path : Bytes} (nonempty : path ≠ [])
    (done : (tree.makeDirectories path).2 = .ok ()) :
    (tree.makeDirectories path).1.isDirectory path = true := by
  obtain ⟨gains, -, complete⟩ := makeEach_gains tree (tree.missingDirectories path)
  by_cases there : tree.isDirectory path = true
  · exact gains.isDirectory there
  · refine complete done path ?_
    obtain ⟨byte, rest, rfl⟩ := List.exists_cons_of_ne_nil nonempty
    simp [missingDirectories, ancestors, ancestors.climb, there]

/-- A directory that is there is not made. -/
theorem makeDirectories_of_isDirectory {tree : FileTree} {path : Bytes} (nonempty : path ≠ [])
    (there : tree.isDirectory path = true) : tree.makeDirectories path = (tree, .ok ()) := by
  obtain ⟨byte, rest, rfl⟩ := List.exists_cons_of_ne_nil nonempty
  simp [makeDirectories, missingDirectories, ancestors, ancestors.climb, there, makeEach]

/-- Whatever stands below a place stands in directories from there on. -/
theorem IsTree.above {tree : FileTree} (isTree : tree.IsTree) {place below : Place} {entry : Entry}
    (found : tree.get? (place ++ below) = some entry) (strictly : below ≠ []) :
    ∃ parent, tree.get? place = some parent ∧ parent.isDirectory = true := by
  induction below using List.reverseRecOn generalizing entry with
  | nil => exact absurd rfl strictly
  | append_singleton rest name ih =>
      rw [← List.append_assoc] at found
      obtain ⟨parent, foundParent, isDirectory⟩ := isTree _ _ _ found
      cases rest with
      | nil => exact ⟨parent, by simpa using foundParent, isDirectory⟩
      | cons first rest => exact ih foundParent (List.cons_ne_nil first rest)

/-- Nothing stands below a place. -/
def IsBare (tree : FileTree) (place : Place) : Prop :=
  ∀ below, below ≠ [] → tree.get? (place ++ below) = none

/-- Below what is no directory there is nothing. -/
theorem IsTree.isBare {tree : FileTree} (isTree : tree.IsTree) {place : Place}
    (noDirectory : ∀ entry, tree.get? place = some entry → entry.isDirectory = false) :
    tree.IsBare place := by
  intro below strictly
  cases found : tree.get? (place ++ below) with
  | none => rfl
  | some entry =>
      obtain ⟨parent, foundParent, isDirectory⟩ := isTree.above found strictly
      rw [noDirectory parent foundParent] at isDirectory
      cases isDirectory

private theorem isBare_of_hasChildren_eq_false {tree : FileTree} {place : Place}
    (childless : tree.hasChildren place = false) : tree.IsBare place := by
  intro below strictly
  have nonempty : place ++ below ≠ [] := by simp [strictly]
  rw [get?_eq_lookup tree nonempty, lookup_eq_none_iff]
  intro pair member same
  have child := List.any_eq_false.mp childless pair member
  simp [same, strictly] at child

private theorem lookup_map_place (entries : List (Place × Entry)) (lead : Place → Place)
    {place origin : Place} (only : ∀ pair ∈ entries, lead pair.1 = place ↔ pair.1 = origin) :
    (entries.map fun (other, entry) => (lead other, entry)).lookup place =
      entries.lookup origin := by
  induction entries with
  | nil => rfl
  | cons first rest ih =>
      obtain ⟨other, entry⟩ := first
      have further := ih fun pair member => only pair (List.mem_cons_of_mem _ member)
      have here := only (other, entry) List.mem_cons_self
      by_cases same : other = origin
      · have arrives : lead other = place := here.mpr same
        simp [same ▸ arrives, same]
      · have skip : (place == lead other) = false := by
          simpa using fun back : place = lead other => same (here.mp back.symm)
        have skipOrigin : (origin == other) = false := by simpa using Ne.symm same
        simp only [List.map_cons, List.lookup_cons, skip, skipOrigin, further]

/-- In the later tree, what stood at and below one place stands at and below another, and everything
else is as before. All that may have been replaced is what stood at that other place: something of
its kind with nothing below it. -/
structure Moved (tree later : FileTree) (source target : Place) : Prop where
  workDir : later.workDir = tree.workDir
  arrived : ∀ below, later.get? (target ++ below) = tree.get? (source ++ below)
  gone : ∀ below, later.get? (source ++ below) = none
  elsewhere : ∀ place, ¬ source <+: place → ¬ target <+: place →
    later.get? place = tree.get? place
  bare : tree.IsBare target
  alike : ∀ old, tree.get? target = some old → old.isDirectory = true →
    ∃ entry, tree.get? source = some entry ∧ entry.isDirectory = true

/-- Where a place is once everything at or below one place was carried to another. -/
def carried (source target other : Place) : Place :=
  if source.isPrefixOf other then target ++ other.drop source.length else other

section Move

variable {tree : FileTree} {source target : Place}

private theorem carried_append (rest : Place) :
    carried source target (source ++ rest) = target ++ rest := by
  simp [carried]

private theorem carried_of_apart {other : Place} (apart : ¬ source <+: other) :
    carried source target other = other := by
  simp [carried, apart]

private theorem entries_move :
    (tree.move source target).entries =
      tree.entries.map fun (other, entry) => (carried source target other, entry) := rfl

private theorem get?_move_target (sourceBelow : source ≠ []) (targetBelow : target ≠ [])
    (cleared : ∀ pair ∈ tree.entries, ¬ target <+: pair.1) (below : Place) :
    (tree.move source target).get? (target ++ below) = tree.get? (source ++ below) := by
  rw [get?_eq_lookup _ (by simp [targetBelow]), get?_eq_lookup tree (by simp [sourceBelow]),
    entries_move]
  refine lookup_map_place _ _ fun pair member => ?_
  by_cases starts : source <+: pair.1
  · obtain ⟨rest, whole⟩ := starts
    rw [← whole, carried_append, List.append_cancel_left_eq, List.append_cancel_left_eq]
  · rw [carried_of_apart starts]
    constructor
    · intro same
      exact absurd ⟨below, same.symm⟩ (cleared pair member)
    · intro same
      exact absurd ⟨below, same.symm⟩ starts

private theorem get?_move_source (sourceBelow : source ≠ []) (outward : ¬ source <+: target)
    (inward : ¬ target <+: source) (below : Place) :
    (tree.move source target).get? (source ++ below) = none := by
  rw [get?_eq_lookup _ (by simp [sourceBelow]), lookup_eq_none_iff, entries_move]
  intro pair member same
  obtain ⟨old, oldMember, rfl⟩ := List.mem_map.mp member
  change carried source target old.1 = source ++ below at same
  by_cases starts : source <+: old.1
  · obtain ⟨rest, whole⟩ := starts
    rw [← whole, carried_append] at same
    rcases List.prefix_or_prefix_of_prefix (List.prefix_append target rest)
      (same ▸ List.prefix_append source below) with first | second
    · exact inward first
    · exact outward second
  · rw [carried_of_apart starts] at same
    exact starts ⟨below, same.symm⟩

private theorem get?_move_of_apart {place : Place} (away : ¬ source <+: place)
    (astray : ¬ target <+: place) :
    (tree.move source target).get? place = tree.get? place := by
  by_cases top : place = []
  · rw [top, get?_nil, get?_nil]
  rw [get?_eq_lookup _ top, get?_eq_lookup tree top, entries_move]
  refine lookup_map_place _ _ fun pair member => ?_
  by_cases starts : source <+: pair.1
  · obtain ⟨rest, whole⟩ := starts
    rw [← whole, carried_append]
    constructor
    · intro same
      exact absurd ⟨rest, same⟩ astray
    · intro same
      exact absurd ⟨rest, same⟩ away
  · rw [carried_of_apart starts]

/-- Once its own entry is erased, nothing is left at or below a place that is bare. -/
theorem not_prefix_of_erase (bare : tree.IsBare target) (below : target ≠ []) :
    ∀ pair ∈ (tree.erase target).entries, ¬ target <+: pair.1 := by
  rintro pair member ⟨rest, whole⟩
  obtain ⟨there, apart⟩ := List.mem_filter.mp member
  have strictly : rest ≠ [] := by
    rintro rfl
    simp [← whole] at apart
  have vacant := bare rest strictly
  rw [whole, get?_eq_lookup tree (by simp [← whole, below]), lookup_eq_none_iff] at vacant
  exact vacant pair there rfl

private theorem moved_move (bare : tree.IsBare target) (outward : ¬ source <+: target)
    (inward : ¬ target <+: source)
    (alike : ∀ old, tree.get? target = some old → old.isDirectory = true →
      ∃ entry, tree.get? source = some entry ∧ entry.isDirectory = true) :
    tree.Moved ((tree.erase target).move source target) source target := by
  have sourceBelow : source ≠ [] := by
    intro top
    exact outward (top ▸ List.nil_prefix)
  have targetBelow : target ≠ [] := by
    intro top
    exact inward (top ▸ List.nil_prefix)
  refine ⟨rfl, fun below => ?_, fun below => ?_, fun place away astray => ?_, bare, alike⟩
  · rw [get?_move_target sourceBelow targetBelow (not_prefix_of_erase bare targetBelow)]
    exact get?_erase_of_ne tree fun same => outward ⟨below, same⟩
  · exact get?_move_source sourceBelow outward inward below
  · rw [get?_move_of_apart away astray]
    refine get?_erase_of_ne tree ?_
    rintro rfl
    exact astray (List.prefix_refl place)

end Move

/-- A move into a directory that is not itself moved keeps a tree a tree. -/
theorem Moved.isTree {tree later : FileTree} {source above : Place} {name : Bytes} {parent : Entry}
    (moved : tree.Moved later source (above ++ [name])) (isTree : tree.IsTree)
    (outward : ¬ source <+: above ++ [name]) (found : tree.get? above = some parent)
    (isDirectory : parent.isDirectory = true) : later.IsTree := by
  intro place last entry there
  by_cases inside : above ++ [name] <+: place ++ [last]
  · obtain ⟨below, whole⟩ := inside
    rcases List.eq_nil_or_concat below with rfl | ⟨rest, end_, rfl⟩
    · obtain ⟨rfl, -⟩ := List.append_inj' (whole.symm.trans (List.append_nil _)) rfl
      refine ⟨parent, ?_, isDirectory⟩
      rw [moved.elsewhere, found]
      · intro starts
        exact outward (starts.trans (List.prefix_append place [name]))
      · intro starts
        exact absurd starts.length_le (by simp)
    · rw [List.concat_eq_append, ← List.append_assoc] at whole
      obtain ⟨rfl, same⟩ := List.append_inj' whole rfl
      rw [← same, List.append_assoc, moved.arrived, ← List.append_assoc] at there
      obtain ⟨middle, foundMiddle, middleDirectory⟩ := isTree _ _ _ there
      exact ⟨middle, by rw [moved.arrived, foundMiddle], middleDirectory⟩
  by_cases away : source <+: place ++ [last]
  · obtain ⟨below, whole⟩ := away
    rw [← whole, moved.gone] at there
    cases there
  · rw [moved.elsewhere _ away inside] at there
    obtain ⟨middle, foundMiddle, middleDirectory⟩ := isTree _ _ _ there
    refine ⟨middle, ?_, middleDirectory⟩
    rw [moved.elsewhere, foundMiddle]
    · exact fun starts => away (starts.trans (List.prefix_append place [last]))
    · exact fun starts => inside (starts.trans (List.prefix_append place [last]))

/-- A directory that stands after a move where one stood before is that one or the moved one. -/
theorem Moved.isDirectory {tree later : FileTree} {source target : Place}
    (moved : tree.Moved later source target) {place : Place} {entry other : Entry}
    (found : tree.get? place = some entry) (isDirectory : entry.isDirectory = true)
    (there : later.get? place = some other) : other.isDirectory = true := by
  by_cases away : source <+: place
  · obtain ⟨below, rfl⟩ := away
    rw [moved.gone] at there
    cases there
  by_cases inside : target <+: place
  · obtain ⟨below, rfl⟩ := inside
    cases below with
    | nil =>
        rw [List.append_nil] at found
        obtain ⟨first, foundFirst, firstDirectory⟩ := moved.alike entry found isDirectory
        rw [moved.arrived, List.append_nil, foundFirst] at there
        cases there
        exact firstDirectory
    | cons name rest =>
        rw [moved.bare _ (List.cons_ne_nil name rest)] at found
        cases found
  · rw [moved.elsewhere place away inside, found] at there
    cases there
    exact isDirectory

private theorem replace_eq_ok {tree later : FileTree} {source target : Place} {entry : Entry}
    {old : Option Entry} (isTree : tree.IsTree) (here : tree.get? source = some entry)
    (there : tree.get? target = old) (outward : ¬ source <+: target) (inward : ¬ target <+: source)
    (happened : tree.replace source target entry old = .ok later) :
    tree.Moved later source target := by
  have moves (bare : tree.IsBare target)
      (alike : ∀ other, old = some other → other.isDirectory = true → entry.isDirectory = true)
      (same : (tree.erase target).move source target = later) : tree.Moved later source target :=
    same ▸ moved_move bare outward inward fun other found isDirectory =>
      ⟨entry, here, alike other (there.symm.trans found) isDirectory⟩
  cases old with
  | none =>
      exact moves (isTree.isBare (by simp [there])) (fun _ impossible => nomatch impossible)
        (Except.ok.inj happened)
  | some old =>
      cases oldDirectory : old.isDirectory with
      | false =>
          have bare : tree.IsBare target := isTree.isBare (by simp [there, oldDirectory])
          have alike (other : Entry) (same : some old = some other)
              (isDirectory : other.isDirectory = true) : entry.isDirectory = true := by
            cases same
            rw [oldDirectory] at isDirectory
            cases isDirectory
          cases entryDirectory : entry.isDirectory <;>
            simp only [replace, entryDirectory, oldDirectory] at happened
          · exact moves bare alike (Except.ok.inj happened)
          · cases happened
      | true =>
          cases entryDirectory : entry.isDirectory <;>
            simp only [replace, entryDirectory, oldDirectory] at happened
          · cases happened
          · split at happened
            · cases happened
            · rename_i childless
              exact moves (isBare_of_hasChildren_eq_false (by simpa using childless))
                (fun _ _ _ => entryDirectory) (Except.ok.inj happened)

/-- What a rename that happens has done. -/
theorem rename_eq_ok {tree later : FileTree} {source target : Bytes} (isTree : tree.IsTree)
    (happened : tree.rename source target = .ok later) :
    ∃ sourceAbove sourceName targetAbove targetName,
      tree.spotOf source = .ok (.named sourceAbove sourceName) ∧
      tree.spotOf target = .ok (.named targetAbove targetName) ∧
      (tree.get? (sourceAbove ++ [sourceName])).isSome ∧
      (sourceAbove ++ [sourceName] ≠ targetAbove ++ [targetName] →
        ¬ sourceAbove ++ [sourceName] <+: targetAbove ++ [targetName] ∧
        tree.Moved later (sourceAbove ++ [sourceName]) (targetAbove ++ [targetName])) := by
  unfold rename at happened
  split at happened
  · cases happened
  · cases happened
  · cases happened
  · cases happened
  rename_i sourceAbove sourceName targetAbove targetName sourceSpot targetSpot
  split at happened
  · cases happened
  · cases happened
  · cases happened
  rename_i entry old sourceLooked targetLooked
  obtain ⟨-, found⟩ := lookUp_eq_ok sourceLooked
  obtain ⟨-, there⟩ := lookUp_eq_ok targetLooked
  refine ⟨_, _, _, _, sourceSpot, targetSpot, by simp [found], fun apart => ?_⟩
  simp only [apart, if_false] at happened
  split at happened
  · cases happened
  split at happened
  · cases happened
  rename_i outward
  split at happened
  · cases happened
  rename_i inward
  rw [List.isPrefixOf_iff_prefix] at outward inward
  exact ⟨outward, replace_eq_ok isTree found there outward inward happened⟩

/-- Where a path is cut off before a rename, the rest of it does not matter. -/
theorem rename_congr (tree : FileTree) {source target other otherTarget : Bytes}
    (same : other.beforeNul = source.beforeNul)
    (sameTarget : otherTarget.beforeNul = target.beforeNul) :
    tree.rename other otherTarget = tree.rename source target := by
  simp only [rename, spotOf, same, sameTarget]

/-- What is renamed to itself stays. -/
theorem rename_self_eq_ok_iff {tree later : FileTree} {path : Bytes} :
    tree.rename path path = .ok later ↔ later = tree ∧
      ∃ above name entry, tree.spotOf path = .ok (.named above name) ∧
        tree.lookUp above name = .ok (some entry) ∧
        (path.beforeNul.endsWith [Ascii.slash] && !entry.isDirectory) = false := by
  constructor
  · intro renamed
    unfold rename at renamed
    split at renamed
    · cases renamed
    · cases renamed
    · cases renamed
    · cases renamed
    rename_i above name otherAbove otherName spot again
    cases spot.symm.trans again
    split at renamed
    · cases renamed
    · cases renamed
    · cases renamed
    rename_i entry old looked _
    rw [Bool.or_self] at renamed
    dsimp only at renamed
    split at renamed
    · cases renamed
    · rename_i fits
      rw [if_pos rfl] at renamed
      exact ⟨(Except.ok.inj renamed).symm, above, name, entry, spot, looked, by simpa using fits⟩
  · rintro ⟨rfl, above, name, entry, spot, looked, fits⟩
    simp only [rename, spot, looked, Bool.or_self, fits, Bool.false_eq_true, if_false, if_true]

/-- What is no directory can be renamed to any place where no directory stands. -/
theorem exists_rename {tree : FileTree} {source target : Bytes} {sourceAbove targetAbove : Place}
    {sourceName targetName : Bytes} {entry : Entry}
    (sourceSpot : tree.spotOf source = .ok (.named sourceAbove sourceName))
    (targetSpot : tree.spotOf target = .ok (.named targetAbove targetName))
    (sourceShort : sourceName.length ≤ maxNameLength)
    (targetShort : targetName.length ≤ maxNameLength)
    (found : tree.get? (sourceAbove ++ [sourceName]) = some entry)
    (noDirectory : entry.isDirectory = false)
    (free : ∀ old, tree.get? (targetAbove ++ [targetName]) = some old → old.isDirectory = false)
    (noSlash : source.beforeNul.endsWith [Ascii.slash] = false ∧
      target.beforeNul.endsWith [Ascii.slash] = false)
    (outward : ¬ sourceAbove ++ [sourceName] <+: targetAbove ++ [targetName])
    (inward : ¬ targetAbove ++ [targetName] <+: sourceAbove ++ [sourceName]) :
    ∃ next, tree.rename source target = .ok next := by
  have sourceFits : ¬ sourceName.length > maxNameLength := Nat.not_lt_of_le sourceShort
  have targetFits : ¬ targetName.length > maxNameLength := Nat.not_lt_of_le targetShort
  have apart : sourceAbove ++ [sourceName] ≠ targetAbove ++ [targetName] :=
    fun same => outward (same ▸ List.prefix_rfl)
  have sourceLooked : tree.lookUp sourceAbove sourceName = .ok (some entry) := by
    rw [lookUp, if_neg sourceFits, found]
  have targetLooked : tree.lookUp targetAbove targetName =
      .ok (tree.get? (targetAbove ++ [targetName])) := by
    rw [lookUp, if_neg targetFits]
  rw [← List.isPrefixOf_iff_prefix] at outward inward
  simp only [rename, sourceSpot, targetSpot, sourceLooked, targetLooked, noSlash, noDirectory,
    apart, outward, inward, replace, Bool.or_false, Bool.false_and, Bool.false_eq_true, if_false]
  cases there : tree.get? (targetAbove ++ [targetName]) with
  | none => exact ⟨_, rfl⟩
  | some old =>
      dsimp only
      rw [free old there]
      exact ⟨_, rfl⟩

/-- A new link is made where nothing was. -/
theorem makeLink_eq_ok {tree made : FileTree} {target path : Bytes}
    (happened : tree.makeLink target path = .ok made) :
    ∃ above name, tree.spotOf path = .ok (.named above name) ∧ name.length ≤ maxNameLength ∧
      tree.get? (above ++ [name]) = none ∧ path.beforeNul.endsWith [Ascii.slash] = false ∧
      made = tree.put (above ++ [name]) (.link target.beforeNul) := by
  simp only [makeLink] at happened
  split at happened
  · cases happened
  split at happened
  · cases happened
  · cases happened
  · rename_i above name spot
    split at happened
    · cases happened
    · cases happened
    · rename_i looked
      obtain ⟨short, vacant⟩ := lookUp_eq_ok looked
      split at happened
      · cases happened
      · rename_i noDirectory
        obtain ⟨-, shape⟩ := create_eq_ok happened
        exact ⟨above, name, spot, short, vacant, by simpa using noDirectory, shape⟩

/-- A link is removed. -/
theorem remove_of_link {tree : FileTree} {path name target : Bytes} {above : Place}
    (spot : tree.spotOf path = .ok (.named above name)) (short : name.length ≤ maxNameLength)
    (found : tree.get? (above ++ [name]) = some (.link target))
    (noDirectory : path.beforeNul.endsWith [Ascii.slash] = false) :
    tree.remove path = .ok (tree.erase (above ++ [name])) := by
  have fits : ¬ name.length > maxNameLength := Nat.not_lt_of_le short
  simp [remove, spot, lookUp, fits, found, Entry.isDirectory, noDirectory]

/-- A path that leads somewhere leads there as long as everything is kept. -/
theorem spotOf_keptIn {tree later : FileTree} (kept : tree.KeptIn later) {path : Bytes}
    {spot : Spot} (found : tree.spotOf path = .ok spot) : later.spotOf path = .ok spot := by
  simp only [spotOf, kept.workDir] at found ⊢
  split at found
  · cases found
  · exact walk_eq_ok_iff.mpr
      ((walk_eq_ok_iff.mp found).keptIn kept (by intro follows; cases follows))

/-- What is put where nothing was becomes the first entry. -/
theorem put_vacant (tree : FileTree) {place : Place} (entry : Entry)
    (vacant : tree.get? place = none) :
    tree.put place entry = { tree with entries := (place, entry) :: tree.entries } := by
  have below : place ≠ [] := by
    intro top
    simp [top] at vacant
  rw [get?_eq_lookup tree below] at vacant
  simp [put, vacant]

/-- Erasing what was put at a vacant place leaves no trace. -/
theorem erase_put_vacant (tree : FileTree) {place : Place} (entry : Entry)
    (vacant : tree.get? place = none) : (tree.put place entry).erase place = tree := by
  have below : place ≠ [] := by
    intro top
    simp [top] at vacant
  rw [put_vacant tree entry vacant]
  rw [get?_eq_lookup tree below, lookup_eq_none_iff] at vacant
  have untouched : tree.entries.filter (fun pair => pair.1 ≠ place) = tree.entries := by
    rw [List.filter_eq_self]
    exact fun pair member => by simpa using vacant pair member
  simp only [erase, List.filter_cons, ne_eq, not_true, decide_false, Bool.false_eq_true, if_false]
  rw [untouched]

end StoreAudit.FileTree
