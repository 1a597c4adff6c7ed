import StoreAudit.Proofs.Check.Steady
import StoreAudit.Proofs.FileTree.Directories
import StoreAudit.Proofs.Store.RepairOrder

/-!
# Ways into a store

Where the directory of a store is, the paths of its objects, of its quarantine and of its lock are
walked from there on, in every later tree that keeps the ways (`Store.Way`). So what the path of an
object names depends only on what stands at its place and in the directories above it
(`Store.Way.entryOf_congr`), and making the quarantine adds nothing else
(`Store.Way.makeDirectories_quarantine`).
-/

namespace StoreAudit

open FileTree

/-- Records keep the ways to all places. -/
theorem Journal.keepsWays_writeAll (journal : Journal) (files : FileTree)
    (events : List (Int × Bytes)) : files.KeepsWays (journal.writeAll files events) := by
  refine .of_files (journal.keptIn_writeAll files events).workDir fun place entry found noFile => ?_
  have same := journal.extends_writeAll files events place
  rw [found] at same
  exact same.eq_of_noFile fun data shape => noFile data (Option.some.inj shape)

private theorem Journal.Extends.alikeAt {journal : Journal} {tree later : FileTree} {place : Place}
    (extends_ : journal.Extends place (tree.get? place) (later.get? place)) :
    tree.AlikeAt later place := by
  rcases extends_ with same | ⟨-, old, more, before, after⟩
  · exact .inl same
  · exact .inr ⟨⟨old, before⟩, old ++ more, after⟩

namespace Store

variable {store : Store} {journal : Journal} {tree later last : FileTree} {above : Place}
  {left : Nat}

/-- The directory in which the quarantine is made is there. -/
def Stands (store : Store) (tree : FileTree) : Prop :=
  tree.isDirectory (PathName.directory store.quarantine) = true

/-- The root of the store leads to a directory, from which a walk goes on with some links left. So
it does in every tree that keeps the ways. -/
structure Way (store : Store) (tree : FileTree) (above : Place) (left : Nat) : Prop where
  leads : ∃ passed,
    tree.Leads (origin tree.workDir store.quarantine) (names store.root) passed above
  directory : ∃ entry, tree.get? above = some entry ∧ entry.isDirectory = true
  walk : ∀ later, tree.KeepsWays later → ∀ follow parts, parts ≠ [] →
    later.walk follow maxLinks (origin later.workDir store.quarantine) (names store.root ++ parts) =
      later.walk follow left above parts

/-- The way to a store is kept with all others. -/
theorem Way.keepsWays (way : store.Way tree above left) (kept : tree.KeepsWays later) :
    store.Way later above left where
  leads := by
    obtain ⟨passed, leads⟩ := way.leads
    rw [kept.workDir]
    exact ⟨passed, leads.keepsWays kept⟩
  directory := by
    obtain ⟨entry, found, isDirectory⟩ := way.directory
    exact ⟨entry, kept.directory _ _ found isDirectory, isDirectory⟩
  walk last further := way.walk last (kept.trans further)

private theorem directory_quarantine (store : Store) :
    PathName.directory store.quarantine =
      if store.root = [] then [Ascii.slash] else store.root := by
  rw [quarantine_eq]
  exact PathName.directory_append (by decide) store.root

/-- The empty path names no directory. -/
theorem isDirectory_nil (tree : FileTree) : tree.isDirectory [] = false := rfl

/-- A store stands where its root is a directory, for which the empty path stands for the top. -/
theorem stands_iff : store.Stands tree ↔
    tree.isDirectory store.root = true ∨
      store.root = [] ∧ tree.isDirectory [Ascii.slash] = true := by
  rw [Stands, directory_quarantine]
  by_cases top : store.root = []
  · simp [top, isDirectory_nil]
  · simp [top]

/-- The directory in which the quarantine is made is where the root of the store leads. -/
theorem steps_directory_quarantine (store : Store) :
    ∃ tail, steps (PathName.directory store.quarantine) = names store.root ++ tail ∧
      (tail = [] ∨ tail = [here]) := by
  have same : names (PathName.directory store.quarantine) = names store.root := by
    rw [directory_quarantine]
    by_cases top : store.root = []
    · rw [if_pos top, top]
      rfl
    · rw [if_neg top]
  rw [steps, same]
  split
  · exact ⟨[here], rfl, .inr rfl⟩
  · exact ⟨[], (List.append_nil _).symm, .inl rfl⟩

private theorem origin_directory_quarantine (store : Store) (workDir : Place) :
    origin workDir (PathName.directory store.quarantine) = origin workDir store.quarantine := by
  rw [directory_quarantine, quarantine_eq]
  cases store.root <;> rfl

/-- A store that stands can be reached. -/
theorem exists_way (whole : 0 ∉ store.root) (stands : store.Stands tree) :
    ∃ above left, store.Way tree above left := by
  have noNul : 0 ∉ PathName.directory store.quarantine := by
    rw [directory_quarantine]
    split
    · decide
    · exact whole
  obtain ⟨_, entry, found, isDirectory⟩ := isDirectory_iff.mp stands
  obtain ⟨-, there, spot, rfl, reaches⟩ := entryOf_eq_ok_iff.mp found
  obtain ⟨tail, parts, short⟩ := store.steps_directory_quarantine
  rw [Bytes.beforeNul_of_notMem noNul, origin_directory_quarantine, parts] at reaches
  have reaches := reaches.stopAtEnd there isDirectory
  rw [List.append_assoc] at reaches
  obtain ⟨passed, above, left, leads, way⟩ := reaches.exists_way (by simp)
  have stops : tree.walk true left above (tail ++ [here]) = .ok (.itself above) := by
    rcases short with rfl | rfl
    · exact walk_eq_ok_iff.mpr (.stay .stop)
    · exact walk_eq_ok_iff.mpr (.stay (.stay .stop))
  have same : Spot.itself spot.place = .itself above := by
    rw [← way tree (.refl tree) true _ (by simp), walk_eq_ok_iff.mpr reaches] at stops
    exact Except.ok.inj stops
  cases same
  refine ⟨_, left, ⟨passed, leads⟩, ⟨_, there, isDirectory⟩, ?_⟩
  intro later kept follow parts nonempty
  rw [kept.workDir]
  exact way later kept follow parts nonempty

/-- A root that is cut short leads to the same as all paths into the store. -/
theorem entryOf_of_cut (cut : 0 ∈ store.root) (oid : Bytes) :
    tree.entryOf (store.pathOf oid) = tree.entryOf store.root := by
  have same : (store.pathOf oid).beforeNul = store.root.beforeNul := by
    rw [pathOf_eq]
    exact Bytes.beforeNul_append_of_mem cut _
  simp only [entryOf, same]

/-- The name of the lock. -/
def lockName : Bytes := ascii "fsck.lock"

/-- A path from the root of the store to a name in it. -/
theorem pathInto_of_name {name : Bytes} (whole : 0 ∉ store.root) (noNul : 0 ∉ name)
    (noSlash : Ascii.slash ∉ name) (nonempty : name ≠ []) (ordinary : Ordinary name) :
    store.PathInto (store.root ++ Ascii.slash :: name) [] name := by
  have uncut : 0 ∉ store.root ++ Ascii.slash :: name := by
    have slash : (0 : UInt8) ≠ Ascii.slash := by decide
    simp [whole, noNul, slash]
  refine ⟨fun workDir => ?_, ?_, by simpa using ordinary, nofun, fun part more starts => ?_⟩
  · rw [Bytes.beforeNul_of_notMem uncut, quarantine_eq]
    exact origin_append _ _ _ _
  · rw [Bytes.beforeNul_of_notMem uncut, names_append, names_of_noSlash noSlash nonempty]
    rfl
  · exact absurd (List.prefix_nil.mp starts) more

private theorem pathInto_lockPath (whole : 0 ∉ store.root) : store.PathInto store.lockPath []
    lockName :=
  pathInto_of_name whole (by decide) (by decide) (by decide) ⟨by decide, by decide⟩

private theorem pathInto_quarantine (whole : 0 ∉ store.root) :
    store.PathInto store.quarantine [] (ascii "bad") :=
  pathInto_of_name whole (by decide) (by decide) (by decide) ⟨by decide, by decide⟩

namespace Way

variable {path name : Bytes} {below : List Bytes}

private theorem spotOf_eq (way : store.Way tree above left) (into : store.PathInto path below name)
    : tree.spotOf path = match refusal? path.beforeNul with
      | some errno => .error errno
      | none => tree.walk false left above (below ++ [name]) := by
  simp only [spotOf, into.starts, into.parts]
  rewrite [way.walk tree (.refl tree) false _ (by simp)]
  rfl

/-- Where the directories on a path into the store are there, it leads where its names say. -/
theorem spotOf_along (way : store.Way tree above left) (into : store.PathInto path below name)
    (fits : refusal? path.beforeNul = none)
    (directories : ∀ part, part ≠ [] → part <+: below →
      ∃ entry, tree.get? (above ++ part) = some entry ∧ entry.isDirectory = true) :
    tree.spotOf path = .ok (.named (above ++ below) name) := by
  rw [way.spotOf_eq into, fits]
  exact walk_eq_ok_iff.mpr (reaches_along into.ordinary into.short directories)

private theorem entryOf_eq (way : store.Way tree above left) (into : store.PathInto path below name)
    (noSlash : path.beforeNul.endsWith [Ascii.slash] = false) :
    tree.entryOf path = match refusal? path.beforeNul with
      | some errno => .error errno
      | none => match tree.walk true left above (below ++ [name]) with
        | .error errno => .error errno
        | .ok spot => match tree.get? spot.place with
          | none => .error .noEntry
          | some entry => .ok (spot.place, entry) := by
  have whole : steps path.beforeNul = names store.root ++ (below ++ [name]) := by
    rw [steps, noSlash, if_neg Bool.false_ne_true, into.parts]
  simp only [entryOf, into.starts, whole]
  rewrite [way.walk tree (.refl tree) true _ (by simp)]
  rfl

variable {oid : Bytes}

private theorem entryOf_pathOf (way : store.Way tree above left) (whole : 0 ∉ store.root)
    (valid : Digest.isText oid = true) :
    tree.entryOf (store.pathOf oid) = match refusal? (store.pathOf oid).beforeNul with
      | some errno => .error errno
      | none => match tree.walk true left above (objectDirectory oid ++ [oid]) with
        | .error errno => .error errno
        | .ok spot => match tree.get? spot.place with
          | none => .error .noEntry
          | some entry => .ok (spot.place, entry) := by
  refine way.entryOf_eq (pathInto_pathOf whole valid) ?_
  rw [Bytes.beforeNul_of_notMem (store.nul_notMem_pathOf whole valid)]
  exact noSlash_of_valid valid _

/-- Where the directories of an object are there, its path names what stands at its place. -/
theorem entryOf_object (way : store.Way tree above left) (whole : 0 ∉ store.root)
    (valid : Digest.isText oid = true) (fits : refusal? (store.pathOf oid).beforeNul = none)
    (directories : ∀ part, part ≠ [] → part <+: objectDirectory oid →
      ∃ entry, tree.get? (above ++ part) = some entry ∧ entry.isDirectory = true)
    (noLink : ∀ target, tree.get? (objectPlace above oid) ≠ some (.link target)) :
    tree.entryOf (store.pathOf oid) = match tree.get? (objectPlace above oid) with
      | none => .error .noEntry
      | some entry => .ok (objectPlace above oid, entry) := by
  have place : above ++ objectDirectory oid ++ [oid] = objectPlace above oid :=
    List.append_assoc _ _ _
  have reaches : tree.Reaches false left above (objectDirectory oid ++ [oid])
      (.named (above ++ objectDirectory oid) oid) :=
    reaches_along (ordinary_objectDirectory valid) (short_objectDirectory valid) directories
  have walked := walk_eq_ok_iff.mpr
    (reaches.follow (pieces_of_valid valid oid (by simp)).2.1 (place ▸ noLink))
  rw [way.entryOf_pathOf whole valid, fits, walked]
  simp only [Spot.place, place]

/-- What the path of an object names depends only on what stands at its place and in the directories
above it, and does not change with the records in an open journal file that is another file. -/
theorem entryOf_congr (way : store.Way tree above left) (wayLater : store.Way later above left)
    (whole : 0 ∉ store.root) (valid : Digest.isText oid = true)
    (same : ∀ part, part ≠ [] → part <+: objectDirectory oid ++ [oid] →
      journal.Extends (above ++ part) (tree.get? (above ++ part)) (later.get? (above ++ part)))
    (noLink : ∀ part, part ≠ [] → part <+: objectDirectory oid ++ [oid] →
      ∀ target, tree.get? (above ++ part) ≠ some (.link target))
    (unlogged : ∀ place entry, tree.entryOf (store.pathOf oid) = .ok (place, entry) →
      journal.sink ≠ .file place) :
    later.entryOf (store.pathOf oid) = tree.entryOf (store.pathOf oid) := by
  have walks : later.walk true left above (objectDirectory oid ++ [oid]) =
      tree.walk true left above (objectDirectory oid ++ [oid]) :=
    walk_congr (ordinary_objectDirectory valid)
      (fun part nonempty starts => (same part nonempty starts).alikeAt) noLink
  have before := way.entryOf_pathOf whole valid
  have after := wayLater.entryOf_pathOf whole valid
  rw [walks] at after
  rw [before, after]
  cases fits : refusal? (store.pathOf oid).beforeNul with
  | some errno => rfl
  | none =>
      cases walked : tree.walk true left above (objectDirectory oid ++ [oid]) with
      | error errno => rfl
      | ok spot =>
          have place := place_of_walk (ordinary_objectDirectory valid) noLink walked
          have there := same _ (by simp) (List.prefix_refl _)
          rw [← place] at there
          rcases there with unchanged | ⟨sink, old, more, found, -⟩
          · simp only [unchanged]
          · simp only [fits, walked, found] at before
            exact absurd sink (unlogged _ _ before)

end Way

/-- The names of the directories of a store that hold objects. -/
def shelves : List Bytes := [ascii "objects", ascii "bad"]

/-- The lock is on no shelf. -/
theorem lockName_notMem_shelves : lockName ∉ shelves := by decide

/-- No link stands where objects are in a store at a place. -/
def Linkless (tree : FileTree) (above : Place) : Prop :=
  ∀ name ∈ shelves, ∀ below target, tree.get? (above ++ name :: below) ≠ some (.link target)

/-- Wherever the root of the store leads, no link stands where objects are. -/
def LinkFree (store : Store) (tree : FileTree) : Prop :=
  ∀ passed above,
    tree.Leads (origin tree.workDir store.quarantine) (names store.root) passed above →
    Linkless tree above

/-- A tree is free of links in a store if no entry with a shelf in its path is one. -/
theorem linkFree_of_entries
    (apart : ∀ pair ∈ tree.entries, pair.2.isDirectory = true ∨ pair.2.outline = .file [] ∨
      ∀ name ∈ shelves, name ∉ pair.1) : store.LinkFree tree := by
  intro passed above _ name shelf below target found
  rw [get?_eq_lookup tree (by simp)] at found
  rcases apart _ (mem_of_lookup found) with impossible | impossible | away
  · cases impossible
  · cases impossible
  · exact away name shelf (by simp)

/-- Where objects are in a store at a place, the later tree has the same, but for records. -/
def SameShelves (journal : Journal) (above : Place) (tree later : FileTree) : Prop :=
  ∀ name ∈ shelves, ∀ below, journal.Extends (above ++ name :: below)
    (tree.get? (above ++ name :: below)) (later.get? (above ++ name :: below))

namespace SameShelves

/-- Shelves that are the same as the same are the same. -/
theorem trans (first : SameShelves journal above tree later)
    (second : SameShelves journal above later last) : SameShelves journal above tree last :=
  fun name shelf below => (first name shelf below).trans (second name shelf below)

/-- Records leave the shelves the same. -/
theorem writeAll (journal : Journal) (above : Place) (tree : FileTree)
    (events : List (Int × Bytes)) :
    SameShelves journal above tree (journal.writeAll tree events) :=
  fun _ _ _ => journal.extends_writeAll tree events _

/-- Where no objects are, anything can stand. -/
theorem of_elsewhere {name : Bytes} (apart : name ∉ shelves)
    (same : ∀ place, place ≠ above ++ [name] → later.get? place = tree.get? place) :
    SameShelves journal above tree later := by
  refine fun other shelf below => .inl (same _ fun here => ?_)
  rw [List.append_right_inj, List.cons.injEq] at here
  exact apart (here.1 ▸ shelf)

/-- Shelves that are the same are without links if one of them is. -/
theorem linkless (same : SameShelves journal above tree later) (linkless : Linkless tree above) :
    Linkless later above := by
  intro name shelf below target found
  have before := (same name shelf below).eq_of_noFile_after (by simp [found])
  exact linkless name shelf below target (before.symm.trans found)

end SameShelves

variable {oid : Bytes}

/-- Every part of the way to an object starts with the shelf of objects. -/
theorem exists_below_of_prefix {part : List Bytes} (nonempty : part ≠ [])
    (starts : part <+: objectDirectory oid ++ [oid]) :
    ∃ below, part = ascii "objects" :: below := by
  obtain ⟨name, below, rfl⟩ := List.exists_cons_of_ne_nil nonempty
  exact ⟨below, by rw [(List.cons_prefix_cons.mp starts).1]⟩

/-- There is no link on the way to an object. -/
theorem Linkless.object (linkless : Linkless tree above) {part : List Bytes} (nonempty : part ≠ [])
    (starts : part <+: objectDirectory oid ++ [oid]) (target : Bytes) :
    tree.get? (above ++ part) ≠ some (.link target) := by
  obtain ⟨below, rfl⟩ := exists_below_of_prefix nonempty starts
  exact linkless _ List.mem_cons_self below target

/-- No link is where an object is or where it is moved to, or below. -/
theorem Linkless.apart (linkless : Linkless tree above) {place : Place} {target : Bytes}
    (found : tree.get? place = some (.link target)) (oid : Bytes) :
    ¬ objectPlace above oid <+: place ∧ ¬ quarantinePlace above oid <+: place := by
  constructor
  · rintro ⟨below, rfl⟩
    rw [objectPlace, List.append_assoc] at found
    exact linkless _ List.mem_cons_self _ target found
  · rintro ⟨below, rfl⟩
    rw [quarantinePlace, List.append_assoc] at found
    exact linkless _ (by decide) _ target found

private theorem Linkless.quarantine (linkless : Linkless tree above) (target : Bytes) :
    tree.get? (above ++ [ascii "bad"]) ≠ some (.link target) :=
  linkless _ (by decide) [] target

/-- What is on the way to an object is the same. -/
theorem SameShelves.object (same : SameShelves journal above tree later) {part : List Bytes}
    (nonempty : part ≠ []) (starts : part <+: objectDirectory oid ++ [oid]) :
    journal.Extends (above ++ part) (tree.get? (above ++ part)) (later.get? (above ++ part)) := by
  obtain ⟨below, rfl⟩ := exists_below_of_prefix nonempty starts
  exact same _ List.mem_cons_self below

private theorem missingDirectories_quarantine (stands : store.Stands tree) :
    tree.missingDirectories store.quarantine =
      if tree.isDirectory store.quarantine then [] else [store.quarantine] := by
  cases there : tree.isDirectory store.quarantine with
  | true => exact missingDirectories_of_isDirectory there
  | false =>
      rw [missingDirectories_eq (by simp [quarantine_eq]) there,
        missingDirectories_of_isDirectory stands, ite_self]
      rfl

/-- The path of the quarantine can be used if that of an object in it can. -/
theorem refusal?_quarantine (whole : 0 ∉ store.root) (valid : Digest.isText oid = true)
    (fits : refusal? (store.quarantinePath oid).beforeNul = none) :
    refusal? store.quarantine.beforeNul = none := by
  rw [Bytes.beforeNul_of_notMem (store.nul_notMem_quarantinePath whole valid),
    quarantinePath_eq, refusal?_eq_none_iff] at fits
  rw [Bytes.beforeNul_of_notMem (store.nul_notMem_quarantine whole), quarantine_eq,
    refusal?_eq_none_iff]
  refine ⟨by simp, Nat.lt_of_le_of_lt ?_ fits.2⟩
  simp only [List.length_append, List.length_cons]
  omega

namespace Way

/-- A way to a store in which no link stands where objects are. -/
theorem site (way : store.Way tree above left) (isTree : tree.IsTree)
    (linkless : Linkless tree above) : store.Site tree above where
  isTree := isTree
  leads := by
    obtain ⟨passed, leads⟩ := way.leads
    refine ⟨passed, leads, fun link member oid => ?_⟩
    obtain ⟨target, found⟩ := leads.link link member
    exact linkless.apart found oid
  noLink below target inner := by
    obtain ⟨name, rest, rfl⟩ := List.exists_cons_of_ne_nil inner.1
    refine linkless name ?_ rest target
    rcases inner.2 with bad | ⟨head, next, objects⟩
    · rw [(List.cons_prefix_cons.mp bad).1]
      decide
    · rw [(List.cons_prefix_cons.mp objects).1]
      exact List.mem_cons_self
  onward := by
    refine ⟨left, fun below goal nonempty reaches => walk_eq_ok_iff.mp ?_⟩
    rw [way.walk tree (.refl tree) false below nonempty]
    exact walk_eq_ok_iff.mpr reaches

/-- The quarantine is a directory if there is one at its place and its path can be used. -/
theorem isDirectory_quarantine_iff (way : store.Way tree above left) (whole : 0 ∉ store.root)
    (noLink : ∀ target, tree.get? (above ++ [ascii "bad"]) ≠ some (.link target)) :
    tree.isDirectory store.quarantine = true ↔ refusal? store.quarantine.beforeNul = none ∧
      ∃ entry, tree.get? (above ++ [ascii "bad"]) = some entry ∧ entry.isDirectory = true := by
  have noSlash : store.quarantine.beforeNul.endsWith [Ascii.slash] = false := by
    rw [Bytes.beforeNul_of_notMem (store.nul_notMem_quarantine whole)]
    exact noSlash_of_name (by decide) (by decide) _
  have walked : tree.walk true left above ([] ++ [ascii "bad"]) =
      .ok (.named above (ascii "bad")) := by
    rw [List.nil_append, walk_single_of_noLink ⟨by decide, by decide⟩ noLink, if_neg (by decide)]
  rw [isDirectory, way.entryOf_eq (pathInto_quarantine whole) noSlash, walked]
  cases refusal? store.quarantine.beforeNul with
  | some errno => simp
  | none =>
      dsimp only [Spot.place]
      cases tree.get? (above ++ [ascii "bad"]) <;> simp

/-- Making the quarantine where its directory is there adds nothing else. -/
theorem makeDirectories_quarantine (way : store.Way tree above left) (whole : 0 ∉ store.root)
    (stands : store.Stands tree) (linkless : Linkless tree above)
    (made : (tree.makeDirectories store.quarantine).2 = .ok ()) :
    (∀ place, place ≠ above ++ [ascii "bad"] →
      (tree.makeDirectories store.quarantine).1.get? place = tree.get? place) ∧
    ∃ entry, (tree.makeDirectories store.quarantine).1.get? (above ++ [ascii "bad"]) = some entry ∧
      entry.isDirectory = true := by
  have gains := makeDirectories_gains tree store.quarantine
  have ways : tree.KeepsWays (tree.makeDirectories store.quarantine).1 :=
    .of_files gains.workDir fun place entry found _ => gains.kept place entry found
  have there := isDirectory_of_makeDirectories (by simp [quarantine_eq]) made
  have noLink (target : Bytes) :
      (tree.makeDirectories store.quarantine).1.get? (above ++ [ascii "bad"]) ≠
        some (.link target) :=
    fun found => linkless.quarantine target (gains.noNewLink _ _ found)
  refine ⟨?_, ((way.keepsWays ways).isDirectory_quarantine_iff whole noLink).mp there |>.2⟩
  intro place apart
  rw [makeDirectories, missingDirectories_quarantine stands]
  cases before : tree.isDirectory store.quarantine with
  | true => rfl
  | false =>
      rw [if_neg Bool.false_ne_true, makeEach]
      cases happened : tree.makeDirectory store.quarantine with
      | error errno =>
          dsimp only
          split
          · rfl
          split <;> rfl
      | ok after =>
          obtain ⟨_, name, spot, short, vacant, -, rfl⟩ := makeDirectory_eq_ok happened
          rw [way.spotOf_eq (pathInto_quarantine whole)] at spot
          split at spot
          · cases spot
          rw [List.nil_append, walk_single_of_noLink ⟨by decide, by decide⟩ linkless.quarantine,
            if_neg (by decide)] at spot
          cases spot
          exact (get?_put_vacant tree vacant place).trans (if_neg apart)

private theorem spotOf_lockPath (way : store.Way tree above left) (whole : 0 ∉ store.root) :
    tree.spotOf store.lockPath = match refusal? store.lockPath.beforeNul with
      | some errno => .error errno
      | none => .ok (.named above lockName) := by
  have walked : tree.walk false left above ([] ++ [lockName]) = .ok (.named above lockName) :=
    walk_eq_ok_iff.mpr (.last ⟨by decide, by decide⟩ nofun)
  rw [way.spotOf_eq (pathInto_lockPath whole), walked]

private theorem noSlash_lockPath (whole : 0 ∉ store.root) :
    store.lockPath.beforeNul.endsWith [Ascii.slash] = false := by
  have uncut : 0 ∉ store.lockPath := by
    have name : (0 : UInt8) ∉ ascii "/fsck.lock" := by decide
    rw [lockPath, List.mem_append, not_or]
    exact ⟨whole, name⟩
  rw [Bytes.beforeNul_of_notMem uncut]
  exact noSlash_of_name (by decide) (by decide) _

/-- When the lock can be taken, and what it is. -/
theorem makeLink_lockPath_iff (way : store.Way tree above left) (whole : 0 ∉ store.root)
    {target : Bytes} {linked : FileTree} :
    tree.makeLink target store.lockPath = .ok linked ↔
      (refusal? target.beforeNul = none ∧ refusal? store.lockPath.beforeNul = none) ∧
        tree.get? above = some .directory ∧ tree.get? (above ++ [lockName]) = none ∧
        linked = tree.put (above ++ [lockName]) (.link target.beforeNul) := by
  have short : ¬ lockName.length > maxNameLength := by decide
  simp only [makeLink, way.spotOf_lockPath whole]
  cases refusal? target.beforeNul with
  | some errno => simp
  | none =>
      cases refusal? store.lockPath.beforeNul with
      | some errno => simp
      | none =>
          simp only [lookUp, short, if_false, noSlash_lockPath whole, Bool.false_eq_true, create]
          cases tree.get? (above ++ [lockName]) with
          | some entry => simp
          | none =>
              cases tree.get? above with
              | none => simp
              | some entry => cases entry <;> simp [eq_comm]

/-- The lock is removed by its path. -/
theorem remove_lockPath (way : store.Way tree above left) (whole : 0 ∉ store.root)
    (fits : refusal? store.lockPath.beforeNul = none) {target : Bytes}
    (found : tree.get? (above ++ [lockName]) = some (.link target)) :
    tree.remove store.lockPath = .ok (tree.erase (above ++ [lockName])) := by
  have spot := way.spotOf_lockPath whole
  rw [fits] at spot
  exact remove_of_link spot (by decide) found (noSlash_lockPath whole)

end Way

end Store

end StoreAudit
