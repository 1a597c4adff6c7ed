import StoreAudit.Proofs.Check.Course
import StoreAudit.Proofs.Store.Paths

/-!
# What a repair moves

A repair makes its directory and moves the corrupt objects one after the other, up to the first that
cannot be moved. Object names are such that no object is in the way of another, so what was moved
stands in the quarantine as it stood before, and everything else is left alone
(`Store.repair_moves_in_order`).
-/

namespace StoreAudit

open FileTree Audit

namespace Store

variable {store : Store}

section Apart

variable {above : Place} {first second : Bytes} {below : List Bytes}

private theorem eq_of_objectPlace
    (starts : objectPlace above first <+: objectPlace above second ++ below) : first = second := by
  unfold objectPlace at starts
  rw [List.append_assoc, List.prefix_append_right_inj] at starts
  simp only [objectDirectory, List.cons_append, List.nil_append, List.cons_prefix_cons] at starts
  exact starts.2.2.2.1

private theorem eq_of_quarantinePlace
    (starts : quarantinePlace above first <+: quarantinePlace above second ++ below) :
    first = second := by
  unfold quarantinePlace at starts
  rw [List.append_assoc, List.prefix_append_right_inj] at starts
  simp only [List.cons_append, List.nil_append, List.cons_prefix_cons] at starts
  exact starts.2.1

/-- Nothing in the quarantine is below an object's place. -/
theorem not_objectPlace_quarantinePlace :
    ¬ objectPlace above first <+: quarantinePlace above second ++ below := by
  intro starts
  unfold objectPlace quarantinePlace at starts
  rw [List.append_assoc, List.prefix_append_right_inj] at starts
  simp only [objectDirectory, List.cons_append, List.nil_append, List.cons_prefix_cons] at starts
  exact absurd starts.1 (by decide)

/-- No object's place is below one in the quarantine. -/
theorem not_quarantinePlace_objectPlace :
    ¬ quarantinePlace above first <+: objectPlace above second ++ below := by
  intro starts
  unfold objectPlace quarantinePlace at starts
  rw [List.append_assoc, List.prefix_append_right_inj] at starts
  simp only [objectDirectory, List.cons_append, List.nil_append, List.cons_prefix_cons] at starts
  exact absurd starts.1 (by decide)

private theorem objectPlace_ne_quarantinePlace :
    objectPlace above first ≠ quarantinePlace above second := by
  intro same
  have starts : objectPlace above first <+: quarantinePlace above second ++ [] := by simp [same]
  exact not_objectPlace_quarantinePlace starts

variable {moved : List Bytes} {oid : Bytes}

/-- Nothing of an object is at or below a place of other objects. -/
theorem apart_objectPlace (fresh : oid ∉ moved) (below : List Bytes) :
    ∀ other ∈ moved, ¬ objectPlace above other <+: objectPlace above oid ++ below ∧
      ¬ quarantinePlace above other <+: objectPlace above oid ++ below := by
  intro other member
  refine ⟨fun starts => ?_, not_quarantinePlace_objectPlace⟩
  exact fresh (eq_of_objectPlace starts ▸ member)

/-- A place in the quarantine is apart from those of objects that were moved before. -/
theorem apart_quarantinePlace (fresh : oid ∉ moved) (below : List Bytes) :
    ∀ other ∈ moved, ¬ objectPlace above other <+: quarantinePlace above oid ++ below ∧
      ¬ quarantinePlace above other <+: quarantinePlace above oid ++ below := by
  intro other member
  refine ⟨not_objectPlace_quarantinePlace, fun starts => ?_⟩
  exact fresh (eq_of_quarantinePlace starts ▸ member)

/-- Names from the root of the store on along which objects have their directories. -/
def IsInner (below : List Bytes) : Prop :=
  below ≠ [] ∧ (below <+: [ascii "bad"] ∨ ∃ head next, below <+: [ascii "objects", head, next])

private theorem IsInner.mem {below : List Bytes} (inner : IsInner below) :
    ascii "bad" ∈ below ∨ ascii "objects" ∈ below := by
  obtain ⟨nonempty, starts⟩ := inner
  cases below with
  | nil => exact absurd rfl nonempty
  | cons name rest =>
      rcases starts with bad | ⟨head, next, objects⟩
      · exact .inl ((List.cons_prefix_cons.mp bad).1 ▸ List.mem_cons_self)
      · exact .inr ((List.cons_prefix_cons.mp objects).1 ▸ List.mem_cons_self)

/-- The directories of the store are below no object's place. -/
theorem not_objectPlace_inner (inner : IsInner below) :
    ¬ objectPlace above first <+: above ++ below := by
  intro starts
  unfold objectPlace at starts
  rw [List.prefix_append_right_inj] at starts
  rcases inner.2 with bad | ⟨head, next, objects⟩
  · exact absurd (starts.trans bad).length_le (by simp [objectDirectory])
  · exact absurd (starts.trans objects).length_le (by simp [objectDirectory])

/-- The directories of the store are below no place in the quarantine. -/
theorem not_quarantinePlace_inner (inner : IsInner below) :
    ¬ quarantinePlace above first <+: above ++ below := by
  intro starts
  unfold quarantinePlace at starts
  rw [List.prefix_append_right_inj] at starts
  rcases inner.2 with bad | ⟨head, next, objects⟩
  · exact absurd (starts.trans bad).length_le (by simp)
  · have same := starts.trans objects
    simp only [List.cons_append, List.nil_append, List.cons_prefix_cons] at same
    exact absurd same.1 (by decide)

end Apart

/-- A path from the root of the store down to a name. -/
structure PathInto (store : Store) (path : Bytes) (below : List Bytes) (name : Bytes) : Prop where
  starts : ∀ workDir, origin workDir path.beforeNul = origin workDir store.quarantine
  parts : names path.beforeNul = names store.root ++ (below ++ [name])
  ordinary : ∀ part ∈ below ++ [name], Ordinary part
  short : ∀ part ∈ below, part.length ≤ maxNameLength
  inside : ∀ part, part ≠ [] → part <+: below → IsInner part

/-- The path of an object leads into the store. -/
theorem pathInto_pathOf {oid : Bytes} (whole : 0 ∉ store.root) (valid : Digest.isText oid = true) :
    store.PathInto (store.pathOf oid) (objectDirectory oid) oid where
  starts workDir := by
    rw [Bytes.beforeNul_of_notMem (store.nul_notMem_pathOf whole valid), pathOf_eq, quarantine_eq]
    exact origin_append _ _ _ _
  parts := by
    rw [Bytes.beforeNul_of_notMem (store.nul_notMem_pathOf whole valid), store.names_pathOf valid]
  ordinary := ordinary_objectDirectory valid
  short := short_objectDirectory valid
  inside _ nonempty starts := ⟨nonempty, .inr ⟨_, _, starts⟩⟩

/-- The path of an object in the quarantine leads into the store. -/
theorem pathInto_quarantinePath {oid : Bytes} (whole : 0 ∉ store.root)
    (valid : Digest.isText oid = true) :
    store.PathInto (store.quarantinePath oid) [ascii "bad"] oid where
  starts workDir := by
    rw [Bytes.beforeNul_of_notMem (store.nul_notMem_quarantinePath whole valid), quarantinePath_eq,
      quarantine_eq]
    exact origin_append _ _ _ _
  parts := by
    rw [Bytes.beforeNul_of_notMem (store.nul_notMem_quarantinePath whole valid),
      store.names_quarantinePath valid]
  ordinary := ordinary_bad valid
  short part member := by
    rw [List.mem_singleton] at member
    rw [member]
    decide
  inside _ nonempty starts := ⟨nonempty, .inl starts⟩

/-- No link stands in place of a directory of the store, wherever its root leads, and the way there
passes no link inside the store. -/
def Plain (store : Store) (tree : FileTree) : Prop :=
  ∀ passed above,
    tree.Leads (origin tree.workDir store.quarantine) (names store.root) passed above →
    (∀ link ∈ passed, ¬ above <+: link) ∧
      ∀ below target, IsInner below → tree.get? (above ++ below) ≠ some (.link target)

/-- A store is plain if all links lie outside of its directories and have other names than the
directories on the way to it. -/
theorem plain_of_entries {tree : FileTree}
    (apart : ∀ pair ∈ tree.entries, pair.2.isDirectory = true ∨ pair.2.outline = .file [] ∨
      ascii "bad" ∉ pair.1 ∧ ascii "objects" ∉ pair.1 ∧
        ∀ name ∈ names store.root, pair.1.getLast? ≠ some name) :
    store.Plain tree := by
  have away (place : Place) (target : Bytes) (found : tree.get? place = some (.link target)) :
      ascii "bad" ∉ place ∧ ascii "objects" ∉ place ∧
        ∀ name ∈ names store.root, place.getLast? ≠ some name := by
    by_cases below : place = []
    · rw [below, get?_nil] at found
      cases found
    · rw [get?_eq_lookup tree below] at found
      rcases apart _ (mem_of_lookup found) with impossible | impossible | away
      · cases impossible
      · cases impossible
      · exact away
  intro passed above leads
  have none : passed = [] := leads.links_eq_nil fun name member above target found =>
    (away _ _ found).2.2 name member List.getLast?_concat
  refine ⟨by simp [none], fun below target inner found => ?_⟩
  obtain ⟨noBad, noObjects, -⟩ := away _ _ found
  rcases inner.mem with bad | objects
  · exact noBad (List.mem_append_right above bad)
  · exact noObjects (List.mem_append_right above objects)

/-- A tree in which the store and its quarantine are there, the root at a place. The way there
passes no link that a repair could move. -/
structure Site (store : Store) (tree : FileTree) (above : Place) : Prop where
  isTree : tree.IsTree
  leads : ∃ passed,
    tree.Leads (origin tree.workDir store.quarantine) (names store.root) passed above ∧
      ∀ link ∈ passed, ∀ oid,
        ¬ objectPlace above oid <+: link ∧ ¬ quarantinePlace above oid <+: link
  noLink : ∀ below target, IsInner below → tree.get? (above ++ below) ≠ some (.link target)
  onward : ∃ left, ∀ below goal, below ≠ [] → tree.Reaches false left above below goal →
    tree.Reaches false maxLinks (origin tree.workDir store.quarantine)
      (names store.root ++ below) goal

/-- What a repair has done to a tree so far: the objects that were moved stand in the quarantine
with all that is below them, and no more where they stood. Everything else is as before, and only an
open journal file may have grown. -/
structure Relocated (journal : Journal) (tree later : FileTree) (above : Place)
    (moved : List Bytes) : Prop where
  arrived : ∀ oid ∈ moved, ∀ below, ∃ middle,
    journal.Extends (objectPlace above oid ++ below) (tree.get? (objectPlace above oid ++ below))
      middle ∧
    journal.Extends (quarantinePlace above oid ++ below) middle
      (later.get? (quarantinePlace above oid ++ below))
  gone : ∀ oid ∈ moved, ∀ below, later.get? (objectPlace above oid ++ below) = none
  elsewhere : ∀ place,
    (∀ oid ∈ moved, ¬ objectPlace above oid <+: place ∧ ¬ quarantinePlace above oid <+: place) →
    journal.Extends place (tree.get? place) (later.get? place)

/-- Moving an object that was not moved before. -/
theorem Relocated.more {journal : Journal} {tree later next : FileTree} {above : Place}
    {moved : List Bytes} {oid : Bytes} (relocated : Relocated journal tree later above moved)
    (fresh : oid ∉ moved)
    (move : later.Moved next (objectPlace above oid) (quarantinePlace above oid)) :
    Relocated journal tree next above (moved ++ [oid]) where
  arrived other member below := by
    rcases List.mem_append.mp member with earlier | last
    · obtain ⟨middle, first, second⟩ := relocated.arrived other earlier below
      refine ⟨middle, first, ?_⟩
      rw [move.elsewhere]
      · exact second
      · exact not_objectPlace_quarantinePlace
      · exact fun starts => fresh (eq_of_quarantinePlace starts ▸ earlier)
    · rw [List.mem_singleton] at last
      subst last
      refine ⟨_, relocated.elsewhere _ (apart_objectPlace fresh below), ?_⟩
      rw [move.arrived]
      exact .inl rfl
  gone other member below := by
    rcases List.mem_append.mp member with earlier | last
    · rw [move.elsewhere]
      · exact relocated.gone other earlier below
      · exact fun starts => fresh (eq_of_objectPlace starts ▸ earlier)
      · exact not_quarantinePlace_objectPlace
    · rw [List.mem_singleton] at last
      subst last
      exact move.gone below
  elsewhere place away := by
    obtain ⟨notSource, notTarget⟩ := away oid (by simp)
    rw [move.elsewhere place notSource notTarget]
    exact relocated.elsewhere place fun other member => away other (List.mem_append_left _ member)

/-- The paths of an object and of its quarantine lead to their places, and the object is there. -/
structure Stood (store : Store) (tree : FileTree) (above : Place) (oid : Bytes) : Prop where
  path : tree.spotOf (store.pathOf oid) = .ok (.named (above ++ objectDirectory oid) oid)
  quarantine : tree.spotOf (store.quarantinePath oid) = .ok (.named (above ++ [ascii "bad"]) oid)
  object : (tree.get? (objectPlace above oid)).isSome

/-- A tree on the way, in which the store can be entered as before. -/
structure Underway (journal : Journal) (tree later : FileTree) (above : Place)
    (moved : List Bytes) : Prop extends Relocated journal tree later above moved where
  workDir : later.workDir = tree.workDir
  isTree : later.IsTree
  directories : ∀ place entry other, tree.get? place = some entry → entry.isDirectory = true →
    later.get? place = some other → other.isDirectory = true

namespace Underway

variable {journal : Journal} {tree later : FileTree} {above : Place} {moved : List Bytes}

/-- At the start of a repair nothing is moved. -/
theorem start (journal : Journal) {tree : FileTree} (isTree : tree.IsTree) (above : Place) :
    Underway journal tree tree above [] where
  arrived _ member := nomatch member
  gone _ member := nomatch member
  elsewhere _ _ := .inl rfl
  workDir := rfl
  isTree := isTree
  directories _ _ _ found isDirectory again := by
    rw [found] at again
    cases again
    exact isDirectory

/-- A record leaves a repair where it is. -/
theorem write (underway : Underway journal tree later above moved) (level : Int) (text : Bytes) :
    Underway journal tree (journal.write later level text) above moved where
  arrived oid member below := by
    obtain ⟨middle, first, second⟩ := underway.arrived oid member below
    exact ⟨middle, first, second.trans (journal.extends_write _ _ _ _)⟩
  gone oid member below :=
    journal.get?_write_eq_none.mpr (underway.gone oid member below)
  elsewhere place apart := (underway.elsewhere place apart).trans (journal.extends_write _ _ _ _)
  workDir := (journal.keptIn_write later level text).workDir.trans underway.workDir
  isTree := journal.isTree_write underway.isTree _ _
  directories place entry other found isDirectory again := by
    cases old : later.get? place with
    | none =>
        rw [journal.get?_write_eq_none.mpr old] at again
        cases again
    | some middle =>
        have still := underway.directories place entry middle found isDirectory old
        obtain ⟨kept, there, same⟩ := (journal.keptIn_write later level text).entry place middle old
        rw [again, Option.some.injEq] at there
        rw [there, Entry.isDirectory_eq_of_outline same, still]

private theorem inner (underway : Underway journal tree later above moved) {below : List Bytes}
    (inside : IsInner below) :
    journal.Extends (above ++ below) (tree.get? (above ++ below)) (later.get? (above ++ below)) :=
  underway.elsewhere _ fun _ _ =>
    ⟨not_objectPlace_inner inside, not_quarantinePlace_inner inside⟩

/-- The root of the store leads to where it led, if it leads anywhere. -/
theorem leads_eq (underway : Underway journal tree later above moved) (site : store.Site tree above)
    {passed : List Place} {last : Place}
    (leads : later.Leads (origin tree.workDir store.quarantine) (names store.root) passed last) :
    last = above := by
  obtain ⟨before, led, outside⟩ := site.leads
  refine (led.unique underway.directories ?_ leads).2
  intro link member target other found again
  have apart := underway.elsewhere link fun oid _ => outside link member oid
  have same := apart.eq_of_noFile (by simp [found])
  rw [again, found] at same
  exact Option.some.inj same

/-- A path into the store that leads anywhere leads where its names say, and did so before. -/
theorem spotOf_eq (underway : Underway journal tree later above moved)
    (site : store.Site tree above) {path name : Bytes} {below : List Bytes}
    (into : store.PathInto path below name) {spot : Spot} (found : later.spotOf path = .ok spot) :
    spot = .named (above ++ below) name ∧ tree.spotOf path = .ok (.named (above ++ below) name) ∧
      ∀ part, part ≠ [] → part <+: below →
        ∃ entry, later.get? (above ++ part) = some entry ∧ entry.isDirectory = true := by
  simp only [spotOf, underway.workDir, into.starts, into.parts] at found
  split at found
  · cases found
  rename_i fits
  obtain ⟨passed, last, left, leads, reaches, -⟩ := (walk_eq_ok_iff.mp found).split (by simp)
  obtain rfl := underway.leads_eq site leads
  obtain ⟨same, directories⟩ := reaches.along into.ordinary fun part nonempty starts target => by
    intro shown
    have inner := into.inside part nonempty starts
    have still := (underway.inner inner).eq_of_noFile_after (by simp [shown])
    exact site.noLink part target inner (still.symm.trans shown)
  refine ⟨same, ?_, directories⟩
  obtain ⟨left, onward⟩ := site.onward
  have before : tree.Reaches false left last (below ++ [name]) (.named (last ++ below) name) := by
    refine reaches_along into.ordinary into.short fun part nonempty starts => ?_
    obtain ⟨entry, there, isDirectory⟩ := directories part nonempty starts
    have noFile (data : Bytes) : later.get? (last ++ part) ≠ some (.file data) := by
      intro shown
      rw [there] at shown
      cases shown
      cases isDirectory
    have inner := underway.inner (into.inside part nonempty starts)
    exact ⟨entry, (inner.eq_of_noFile_after noFile).symm.trans there, isDirectory⟩
  simp only [spotOf, into.starts, into.parts, fits]
  exact walk_eq_ok_iff.mpr (onward _ _ (by simp) before)

/-- Moving an object into the quarantine that was not moved before. -/
theorem more (underway : Underway journal tree later above moved) {next : FileTree} {oid : Bytes}
    (fresh : oid ∉ moved) {bad : Entry} (found : later.get? (above ++ [ascii "bad"]) = some bad)
    (isDirectory : bad.isDirectory = true)
    (outward : ¬ objectPlace above oid <+: quarantinePlace above oid)
    (move : later.Moved next (objectPlace above oid) (quarantinePlace above oid)) :
    Underway journal tree next above (moved ++ [oid]) where
  toRelocated := underway.toRelocated.more fresh move
  workDir := move.workDir.trans underway.workDir
  isTree := by
    have targetPlace : quarantinePlace above oid = above ++ [ascii "bad"] ++ [oid] :=
      (List.append_assoc _ _ _).symm
    rw [targetPlace] at move outward
    exact move.isTree underway.isTree outward found isDirectory
  directories place entry other there wasDirectory again := by
    cases middle : later.get? place with
    | some between =>
        exact move.isDirectory middle
          (underway.directories place entry between there wasDirectory middle) again
    | none =>
        by_cases inside : quarantinePlace above oid <+: place
        · obtain ⟨below, rfl⟩ := inside
          have same := (underway.elsewhere _ (apart_quarantinePlace fresh below)).eq_of_noFile_after
            (by simp [middle])
          rw [there, middle] at same
          cases same
        by_cases away : objectPlace above oid <+: place
        · obtain ⟨below, rfl⟩ := away
          rw [move.gone] at again
          cases again
        · rw [move.elsewhere place away inside, middle] at again
          cases again

/-- A rename that happens moves an object that stood in the store. -/
theorem rename (underway : Underway journal tree later above moved) (site : store.Site tree above)
    {oid : Bytes} (whole : 0 ∉ store.root) (valid : Digest.isText oid = true) {next : FileTree}
    (happened : later.rename (store.pathOf oid) (store.quarantinePath oid) = .ok next) :
    Underway journal tree next above (moved ++ [oid]) ∧ store.Stood tree above oid := by
  obtain ⟨_, _, _, _, sourceSpot, targetSpot, present, moves⟩ :=
    rename_eq_ok underway.isTree happened
  obtain ⟨source, sourceBefore, -⟩ :=
    underway.spotOf_eq site (pathInto_pathOf whole valid) sourceSpot
  obtain ⟨target, targetBefore, directories⟩ :=
    underway.spotOf_eq site (pathInto_quarantinePath whole valid) targetSpot
  cases source
  cases target
  have sourcePlace : above ++ objectDirectory oid ++ [oid] = objectPlace above oid :=
    List.append_assoc _ _ _
  have targetPlace : above ++ [ascii "bad"] ++ [oid] = quarantinePlace above oid :=
    List.append_assoc _ _ _
  rw [sourcePlace] at present
  have fresh : oid ∉ moved := by
    intro member
    have vacant := underway.gone oid member []
    rw [List.append_nil] at vacant
    rw [vacant] at present
    cases present
  rw [sourcePlace, targetPlace] at moves
  obtain ⟨outward, move⟩ := moves objectPlace_ne_quarantinePlace
  obtain ⟨bad, found, isDirectory⟩ := directories [ascii "bad"] (by simp) (List.prefix_refl _)
  refine ⟨underway.more fresh found isDirectory outward move, sourceBefore, targetBefore, ?_⟩
  have same := underway.elsewhere _ (apart_objectPlace fresh [])
  rw [List.append_nil] at same
  rcases same with same | ⟨-, old, more, shape, -⟩
  · exact same ▸ present
  · simp [shape]

end Underway

/-- The root of a store that is there leads somewhere. -/
theorem exists_site {tree : FileTree} (isTree : tree.IsTree) (whole : 0 ∉ store.root)
    (plain : store.Plain tree) (there : tree.isDirectory store.quarantine = true) :
    ∃ above, store.Site tree above := by
  have noSlash : ¬ store.quarantine.endsWith [Ascii.slash] = true := by
    rw [quarantine_eq, endsWith_slash_append (by decide)]
    decide
  have steps_eq : steps store.quarantine = names store.root ++ [ascii "bad"] := by
    rw [steps, if_neg noSlash, names_quarantine]
  obtain ⟨_, entry, found, -⟩ := isDirectory_iff.mp there
  obtain ⟨-, -, spot, -, reaches⟩ := entryOf_eq_ok_iff.mp found
  rw [Bytes.beforeNul_of_notMem (store.nul_notMem_quarantine whole), steps_eq] at reaches
  obtain ⟨passed, above, left, leads, -, graft⟩ := reaches.split (by simp)
  obtain ⟨outside, noLink⟩ := plain passed above leads
  have apart (link : Place) (member : link ∈ passed) (oid : Bytes) :
      ¬ objectPlace above oid <+: link ∧ ¬ quarantinePlace above oid <+: link :=
    ⟨fun starts => outside link member ((List.prefix_append _ _).trans starts),
      fun starts => outside link member ((List.prefix_append _ _).trans starts)⟩
  exact ⟨above, isTree, ⟨passed, leads, apart⟩, noLink, left,
    fun below goal nonempty => graft below goal nonempty⟩

/-- The change that moves an object. -/
def moving (store : Store) (oid : Bytes) : Change :=
  .rename (store.pathOf oid) (store.quarantinePath oid)

/-- What is said of an object that cannot be moved. -/
def moveFailure (store : Store) (oid : Bytes) (errno : Errno) : Failure :=
  .inCall (ascii "rename(" ++ store.pathOf oid ++ ascii ", " ++ store.quarantinePath oid ++
    ascii ")") errno

private theorem setAside_eq {oid : Bytes} (valid : Digest.isText oid = true) (session : Session) :
    store.setAside oid session =
      (Audit.change (ascii "rename(" ++ store.pathOf oid ++ ascii ", " ++
          store.quarantinePath oid ++ ascii ")") (store.moving oid) >>= fun _ =>
        liftM (note (ascii "quarantined " ++ oid.beforeNul)) : Audit Unit) session := by
  have path : store.objectPath oid = .ok (store.pathOf oid) := by rw [objectPath, if_pos valid]
  rw [setAside, path, bind_apply_of_ok (liftExcept_apply _ session)]
  rfl

/-- An object that cannot be renamed stays, and the repair fails. -/
theorem setAside_of_refused {oid : Bytes} (valid : Digest.isText oid = true) {session : Session}
    {errno : Errno}
    (refused : session.files.rename (store.pathOf oid) (store.quarantinePath oid) = .error errno) :
    ∃ after, store.setAside oid session = (.error (store.moveFailure oid errno), after) ∧
      after.files = session.files ∧ after.journal = session.journal ∧
      after.changes = session.changes ++ [store.moving oid] := by
  have performed : session.files.perform (store.moving oid) = (session.files, .error errno) := by
    rw [moving, FileTree.perform, refused]
    rfl
  refine ⟨attempted session (store.moving oid), ?_, ?_, rfl, rfl⟩
  · rw [setAside_eq valid, bind_apply, change_apply, performed]
    rfl
  · rw [attempted, performed]

/-- An object that is renamed is noted. -/
theorem setAside_of_moved {oid : Bytes} (valid : Digest.isText oid = true) {session : Session}
    {next : FileTree}
    (happened : session.files.rename (store.pathOf oid) (store.quarantinePath oid) = .ok next) :
    ∃ after text, store.setAside oid session = (.ok (), after) ∧
      after.files = session.journal.write next Journal.noteLevel text ∧
      after.journal = session.journal ∧
      after.changes = session.changes ++ [store.moving oid] := by
  have performed : session.files.perform (store.moving oid) = (next, .ok ()) := by
    rw [moving, FileTree.perform, happened]
    rfl
  have files : (attempted session (store.moving oid)).files = next := by
    rw [attempted, performed]
  refine ⟨(note (ascii "quarantined " ++ oid.beforeNul) (attempted session (store.moving oid))).2,
    ascii "quarantined " ++ oid.beforeNul ++ [Ascii.newline], ?_, ?_, rfl, rfl⟩
  · rw [setAside_eq valid, bind_apply, change_apply, performed]
    rfl
  · rw [← files]
    rfl

/-- How a repair ends that has come to the rest of its objects: none is left, or the next one cannot
be moved. -/
def StopsAt {α : Type} (store : Store) (later : FileTree) (value : α) :
    List Bytes → Except Failure α → Prop
  | [], outcome => outcome = .ok value
  | oid :: _, outcome => ∃ errno,
      later.rename (store.pathOf oid) (store.quarantinePath oid) = .error errno ∧
        outcome = .error (store.moveFailure oid errno)

private theorem StopsAt.map {α β : Type} {later : FileTree} {value : α} {oids : List Bytes}
    {outcome : Except Failure α} (stops : store.StopsAt later value oids outcome) (result : α → β) :
    store.StopsAt later (result value) oids (outcome.map result) := by
  cases oids with
  | nil =>
      cases stops
      rfl
  | cons oid rest =>
      obtain ⟨errno, refused, rfl⟩ := stops
      exact ⟨errno, refused, rfl⟩

/-- Setting objects aside moves a first part of them, and all if it does not fail. -/
theorem setAsides_move {tree : FileTree} {above : Place} {earlier : List Bytes}
    (site : store.Site tree above) (whole : 0 ∉ store.root) {oids : List Bytes}
    (valid : ∀ oid ∈ oids, Digest.isText oid = true) (session : Session)
    (underway : Underway session.journal tree session.files above earlier) :
    let result := (oids.forM store.setAside : Audit Unit) session
    ∃ moved rest, oids = moved ++ rest ∧
      Underway session.journal tree result.2.files above (earlier ++ moved) ∧
      (∀ oid ∈ moved, store.Stood tree above oid) ∧
      result.2.changes = session.changes ++ (moved ++ rest.take 1).map store.moving ∧
      store.StopsAt result.2.files () rest result.1 := by
  induction oids generalizing session earlier with
  | nil =>
      refine ⟨[], [], rfl, ?_, by simp, (List.append_nil _).symm, rfl⟩
      rw [List.append_nil]
      exact underway
  | cons oid rest ih =>
      have validHead := valid oid List.mem_cons_self
      intro result
      have course :
          result = (store.setAside oid >>= fun _ => rest.forM store.setAside) session := rfl
      cases happened : session.files.rename (store.pathOf oid) (store.quarantinePath oid) with
      | error errno =>
          obtain ⟨after, step, files, -, changes⟩ := setAside_of_refused validHead happened
          rw [bind_apply_of_error step] at course
          rw [course]
          refine ⟨[], oid :: rest, rfl, ?_, by simp, changes, errno, ?_, rfl⟩
          · rw [List.append_nil, files]
            exact underway
          · rw [files]
            exact happened
      | ok next =>
          obtain ⟨after, text, step, files, journal, changes⟩ :=
            setAside_of_moved validHead happened
          obtain ⟨further, stood⟩ := underway.rename site whole validHead happened
          have written : Underway after.journal tree after.files above (earlier ++ [oid]) := by
            rw [journal, files]
            exact further.write _ _
          rw [bind_apply_of_ok step] at course
          obtain ⟨moved, left, parts, last, stoodLater, changesLater, stops⟩ :=
            ih (fun other member => valid other (List.mem_cons_of_mem _ member)) after written
          rw [course]
          refine ⟨oid :: moved, left, by rw [parts]; rfl, ?_, ?_, ?_, stops⟩
          · rw [journal, List.append_assoc] at last
            exact last
          · intro other member
            rcases List.mem_cons.mp member with rfl | member
            · exact stood
            · exact stoodLater other member
          · rw [changesLater, changes, List.append_assoc]
            rfl

/-- **What a repair moves.** A repair first makes its directory, and moves nothing if it cannot.
Then it moves the objects one after the other, in order, up to the first that cannot be moved, whose
errno is the failure. Nothing else changes, but for the records of an open journal file. -/
theorem repair_moves_in_order (store : Store) (session : Session) (whole : 0 ∉ store.root)
    (isTree : session.files.IsTree)
    (valid : ∀ oid ∈ session.report.corrupt, Digest.isText oid = true)
    (plain : store.Plain (session.files.makeDirectories store.quarantine).1) :
    let made := session.files.makeDirectories store.quarantine
    let result := store.repair session
    session.files.Gains made.1 (ancestors store.quarantine) ∧
      (∀ errno, made.2 = .error errno →
        result.1 = .error (.inCall (ascii "mkdir(" ++ store.quarantine ++ ascii ")") errno) ∧
          result.2.files = made.1 ∧
          result.2.changes = session.changes ++ [.makeDirectories store.quarantine]) ∧
      (made.2 = .ok () → made.1.isDirectory store.quarantine = true ∧
        ∃ above moved rest, session.report.corrupt = moved ++ rest ∧
          Relocated session.journal made.1 result.2.files above moved ∧
          (∀ oid ∈ moved, store.Stood made.1 above oid) ∧
          result.2.changes = session.changes ++ .makeDirectories store.quarantine ::
            (moved ++ rest.take 1).map store.moving ∧
          store.StopsAt result.2.files session.report.corrupt.length rest result.1) := by
  intro made result
  have course : result = store.moveAll session.report.corrupt (store.announced session) := rfl
  have performed :
      (store.announced session).files.perform (.makeDirectories store.quarantine) = made := rfl
  rw [moveAll, bind_apply, change_apply, performed] at course
  refine ⟨makeDirectories_gains _ _, fun errno refused => ?_, fun succeeded => ?_⟩
  · rw [refused] at course
    rw [course]
    exact ⟨rfl, rfl, rfl⟩
  have there := isDirectory_of_makeDirectories (by simp [quarantine_eq]) succeeded
  obtain ⟨above, site⟩ := exists_site (makeDirectories_isTree isTree _) whole plain there
  let reached := attempted (store.announced session) (.makeDirectories store.quarantine)
  obtain ⟨moved, rest, parts, underway, stood, changes, stops⟩ :=
    setAsides_move site whole valid reached (Underway.start _ site.isTree above)
  have last : result = store.moveEach session.report.corrupt reached := by
    rw [course, succeeded]
  rw [moveEach, bind_pure_apply] at last
  rw [last]
  exact ⟨there, above, moved, rest, parts, underway.toRelocated, stood,
    changes.trans (List.append_assoc _ _ _), stops.map fun _ => session.report.corrupt.length⟩

/-- A store with one object, which is moved. -/
theorem repair_moves_in_order_of_one_object :
    let store : Store := ⟨ascii "s"⟩
    let oid := List.replicate 64 Ascii.zero
    let session : Session :=
      { files := { entries := [([ascii "s"], .directory),
          ([ascii "s", ascii "objects"], .directory),
          ([ascii "s", ascii "objects", ascii "00"], .directory),
          ([ascii "s", ascii "objects", ascii "00", ascii "00"], .directory),
          ([ascii "s", ascii "objects", ascii "00", ascii "00", oid], .file [7])] }
        report := { corrupt := [oid] } }
    let prepared := (session.files.makeDirectories store.quarantine).1
    (store.repair session).1 = .ok 1 ∧ ∃ above, store.Stood prepared above oid ∧
      Relocated session.journal prepared (store.repair session).2.files above [oid] := by
  intro store oid session prepared
  have outcome : (store.repair session).1 = .ok 1 := by decide +kernel
  obtain ⟨-, -, moves⟩ := repair_moves_in_order store session (by decide)
    (isTree_of_entries (by decide +kernel)) (by decide) (plain_of_entries (by decide +kernel))
  obtain ⟨-, above, moved, rest, parts, relocated, stood, -, stops⟩ := moves (by decide +kernel)
  cases rest with
  | nil =>
      have only : moved = [oid] := (List.append_nil moved).symm.trans parts.symm
      rw [only] at relocated stood
      exact ⟨outcome, above, stood oid List.mem_cons_self, relocated⟩
  | cons other rest =>
      obtain ⟨errno, -, failed⟩ := stops
      rw [outcome] at failed
      cases failed

/-- A repair also writes to an open journal file, which is none of what it moves. -/
theorem repair_writes_open_journal :
    let store : Store := ⟨ascii "s"⟩
    let oid := List.replicate 64 Ascii.zero
    let session : Session :=
      { files := { entries := [([ascii "log"], .file []), ([ascii "s"], .directory),
          ([ascii "s", ascii "objects"], .directory),
          ([ascii "s", ascii "objects", ascii "00"], .directory),
          ([ascii "s", ascii "objects", ascii "00", ascii "00"], .directory),
          ([ascii "s", ascii "objects", ascii "00", ascii "00", oid], .file [7])] }
        journal := { level := Journal.noteLevel, sink := .file [ascii "log"] }
        report := { corrupt := [oid] } }
    let result := store.repair session
    result.1 = .ok 1 ∧ result.2.files.get? [ascii "log"] ≠ session.files.get? [ascii "log"] := by
  decide +kernel

end Store

end StoreAudit
