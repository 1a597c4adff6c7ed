import StoreAudit.Proofs.Session.Agreement
import StoreAudit.Proofs.Store.Repair

/-!
# Repairs in another order

Objects that could be moved one after the other can be moved in any order
(`Store.setAsides_of_movable`), and whatever the order, the same stands in the store and in the
quarantine then (`Store.Underway.agree`). A root that is cut off at a zero byte is renamed to itself
instead, and nothing moves (`Store.setAsides_of_cut`).
-/

namespace StoreAudit

open FileTree Audit

namespace Store

variable {store : Store} {journal : Journal} {tree later : FileTree} {above : Place}
  {moved : List Bytes} {oid : Bytes}

/-- An object that can be moved: nothing that stands at its place or where it is to stand is a
directory. -/
structure Movable (store : Store) (tree : FileTree) (above : Place) (oid : Bytes) : Prop
    extends Stood store tree above oid where
  valid : Digest.isText oid = true
  flat : ∀ entry, tree.get? (objectPlace above oid) = some entry → entry.isDirectory = false
  free : ∀ entry, tree.get? (quarantinePlace above oid) = some entry → entry.isDirectory = false

private theorem apart_of_directory {place target : Place} {entry : Entry} (isTree : tree.IsTree)
    (found : tree.get? place = some entry) (isDirectory : entry.isDirectory = true)
    (flat : ∀ entry, tree.get? target = some entry → entry.isDirectory = false) :
    ¬ target <+: place := by
  rintro ⟨below, rfl⟩
  cases below with
  | nil =>
      rw [List.append_nil] at found
      rw [flat entry found] at isDirectory
      cases isDirectory
  | cons name rest =>
      have bare := isTree.isBare flat (name :: rest) (List.cons_ne_nil name rest)
      cases bare.symm.trans found

/-- A path that ends with a name does not ask for a directory. -/
theorem noSlash_of_name {name : Bytes} (nonempty : name ≠ []) (whole : Ascii.slash ∉ name)
    (start : Bytes) : (start ++ Ascii.slash :: name).endsWith [Ascii.slash] = false :=
  Bool.eq_false_iff.mpr fun ends => nonempty ((endsWith_slash_append whole start).mp ends)

/-- The path of an object does not end in a slash. -/
theorem noSlash_of_valid (valid : Digest.isText oid = true) (start : Bytes) :
    (start ++ Ascii.slash :: oid).endsWith [Ascii.slash] = false := by
  obtain ⟨nonempty, -, hex⟩ := pieces_of_valid valid oid (by simp)
  exact noSlash_of_name nonempty (fun member => (Hex.isDigit_ne (hex _ member)).2.1 rfl) start

namespace Underway

/-- Moving objects leaves every directory where it was. -/
theorem stays (underway : Underway journal tree later above moved) (isTree : tree.IsTree)
    (movable : ∀ oid ∈ moved, store.Movable tree above oid) {place : Place} {entry : Entry}
    (found : tree.get? place = some entry) (isDirectory : entry.isDirectory = true) :
    later.get? place = some entry := by
  have same : journal.Extends place (tree.get? place) (later.get? place) := by
    apply underway.elsewhere
    intro oid member
    exact ⟨apart_of_directory isTree found isDirectory (movable oid member).flat,
      apart_of_directory isTree found isDirectory (movable oid member).free⟩
  rw [found] at same
  apply same.eq_of_noFile
  rintro data ⟨⟩
  cases isDirectory

/-- A path into the store that led to a place leads there still. -/
theorem spotOf_stays (underway : Underway journal tree later above moved)
    (site : store.Site tree above) (movable : ∀ oid ∈ moved, store.Movable tree above oid)
    {path name : Bytes} {below : List Bytes} (into : store.PathInto path below name)
    (found : tree.spotOf path = .ok (.named (above ++ below) name)) :
    later.spotOf path = .ok (.named (above ++ below) name) := by
  simp only [spotOf, underway.workDir, into.starts, into.parts] at found ⊢
  split at found
  · cases found
  obtain ⟨passed, leads, outside⟩ := site.leads
  have kept (place : Place) (entry : Entry) (there : tree.get? place = some entry)
      (isDirectory : entry.isDirectory = true) : later.get? place = some entry :=
    underway.stays site.isTree movable there isDirectory
  have linked (link : Place) (member : link ∈ passed) : later.get? link = tree.get? link := by
    obtain ⟨target, there⟩ := leads.link link member
    have same := underway.elsewhere link fun oid _ => outside link member oid
    exact same.eq_of_noFile (by simp [there])
  obtain ⟨left, further, graft⟩ :=
    leads.graft kept linked (by simp) (walk_eq_ok_iff.mp found)
  obtain ⟨-, directories⟩ := further.along into.ordinary fun part nonempty starts target =>
    site.noLink part target (into.inside part nonempty starts)
  apply walk_eq_ok_iff.mpr
  apply graft
  apply reaches_along into.ordinary into.short
  intro part nonempty starts
  obtain ⟨entry, there, isDirectory⟩ := directories part nonempty starts
  exact ⟨entry, kept _ entry there isDirectory, isDirectory⟩

/-- An object that can be moved can still be moved after others. -/
theorem exists_rename (underway : Underway journal tree later above moved)
    (site : store.Site tree above) (whole : 0 ∉ store.root)
    (movable : ∀ oid ∈ moved, store.Movable tree above oid)
    (object : store.Movable tree above oid) (fresh : oid ∉ moved) :
    ∃ next, later.rename (store.pathOf oid) (store.quarantinePath oid) = .ok next := by
  obtain ⟨-, short, -⟩ := pieces_of_valid object.valid oid (by simp)
  have sourcePlace : above ++ objectDirectory oid ++ [oid] = objectPlace above oid :=
    List.append_assoc _ _ _
  have targetPlace : above ++ [ascii "bad"] ++ [oid] = quarantinePlace above oid :=
    List.append_assoc _ _ _
  obtain ⟨entry, there⟩ := Option.isSome_iff_exists.mp object.object
  have source := underway.elsewhere _ (apart_objectPlace fresh [])
  rw [List.append_nil, there] at source
  obtain ⟨kept, found, sameKind⟩ := source.isDirectory_of_some
  have target := underway.elsewhere _ (apart_quarantinePlace fresh [])
  rw [List.append_nil] at target
  have free (old : Entry) (stands : later.get? (quarantinePlace above oid) = some old) :
      old.isDirectory = false := by
    rw [stands] at target
    obtain ⟨before, stood, sameKind⟩ := target.isDirectory_of_some_after
    rw [← sameKind]
    exact object.free before stood
  have stands : later.get? (above ++ objectDirectory oid ++ [oid]) = some kept := by
    rw [sourcePlace, found]
  refine FileTree.exists_rename
    (underway.spotOf_stays site movable (pathInto_pathOf whole object.valid) object.path)
    (underway.spotOf_stays site movable (pathInto_quarantinePath whole object.valid)
      object.quarantine) short short stands ?_ ?_ ⟨?_, ?_⟩ ?_ ?_
  · rw [sameKind]
    exact object.flat entry there
  · rw [targetPlace]
    exact free
  · rw [Bytes.beforeNul_of_notMem (store.nul_notMem_pathOf whole object.valid)]
    exact noSlash_of_valid object.valid _
  · rw [Bytes.beforeNul_of_notMem (store.nul_notMem_quarantinePath whole object.valid),
      quarantinePath_eq, ← List.cons_append, ← List.append_assoc]
    exact noSlash_of_valid object.valid _
  · rw [sourcePlace, targetPlace, ← List.append_nil (quarantinePlace above oid)]
    exact not_objectPlace_quarantinePlace
  · rw [sourcePlace, targetPlace, ← List.append_nil (objectPlace above oid)]
    exact not_quarantinePlace_objectPlace

private theorem writeAll (underway : Underway journal tree later above moved)
    (events : List (Int × Bytes)) :
    Underway journal tree (journal.writeAll later events) above moved := by
  induction events generalizing later with
  | nil => exact underway
  | cons event rest ih => exact ih (underway.write event.1 event.2)

/-- Objects that were moved could be moved. -/
theorem movable (underway : Underway journal tree later above moved)
    (valid : ∀ oid ∈ moved, Digest.isText oid = true)
    (stood : ∀ oid ∈ moved, store.Stood tree above oid)
    (flat : ∀ oid ∈ moved, ∀ entry, tree.get? (objectPlace above oid) = some entry →
      entry.isDirectory = false) :
    ∀ oid ∈ moved, store.Movable tree above oid := by
  intro oid member
  refine ⟨stood oid member, valid oid member, flat oid member, fun old there => ?_⟩
  obtain ⟨entry, object⟩ := Option.isSome_iff_exists.mp (stood oid member).object
  obtain ⟨middle, first, second⟩ := underway.arrived oid member []
  rw [List.append_nil, object] at first
  obtain ⟨between, rfl, sameKind⟩ := first.isDirectory_of_some
  rw [List.append_nil] at second
  obtain ⟨last, arrived, lastKind⟩ := second.isDirectory_of_some
  cases directory : old.isDirectory with
  | false => rfl
  | true =>
      have still := underway.directories _ old last there directory arrived
      rw [lastKind, sameKind, flat oid member entry object] at still
      cases still

/-- What arrived in the quarantine is what stood in the store, if the journal file is none of it. -/
theorem extends_arrived (underway : Underway journal tree later above moved)
    (isTree : tree.IsTree) (member : oid ∈ moved)
    (flat : ∀ entry, tree.get? (objectPlace above oid) = some entry → entry.isDirectory = false)
    (unlogged : journal.sink ≠ .file (objectPlace above oid)) (below : List Bytes) :
    journal.Extends (quarantinePlace above oid ++ below)
      (tree.get? (objectPlace above oid ++ below))
      (later.get? (quarantinePlace above oid ++ below)) := by
  obtain ⟨middle, first, second⟩ := underway.arrived oid member below
  rcases first with rfl | ⟨sink, old, more, before, -⟩
  · exact second
  cases below with
  | nil =>
      rw [List.append_nil] at sink
      exact absurd sink unlogged
  | cons name rest =>
      cases (isTree.isBare flat _ (List.cons_ne_nil name rest)).symm.trans before

/-- Moving the same objects in two orders leaves the same. -/
theorem agree {first second : FileTree} {others : List Bytes} (isTree : tree.IsTree)
    (one : Underway journal tree first above moved)
    (two : Underway journal tree second above others)
    (same : ∀ oid, oid ∈ others ↔ oid ∈ moved)
    (flat : ∀ oid ∈ moved, ∀ entry, tree.get? (objectPlace above oid) = some entry →
      entry.isDirectory = false)
    (unlogged : ∀ oid ∈ moved, journal.sink ≠ .file (objectPlace above oid)) :
    journal.Agree first second := by
  refine ⟨two.workDir.trans one.workDir.symm, fun place => ?_⟩
  by_cases inQuarantine : ∃ oid ∈ moved, quarantinePlace above oid <+: place
  · obtain ⟨oid, member, below, rfl⟩ := inQuarantine
    exact (one.extends_arrived isTree member (flat oid member) (unlogged oid member) below).agree
      (two.extends_arrived isTree ((same oid).mpr member) (flat oid member) (unlogged oid member)
        below)
  by_cases inStore : ∃ oid ∈ moved, objectPlace above oid <+: place
  · obtain ⟨oid, member, below, rfl⟩ := inStore
    rw [one.gone oid member, two.gone oid ((same oid).mpr member)]
    exact .inl rfl
  have away : ∀ oid ∈ moved, ¬ objectPlace above oid <+: place ∧
      ¬ quarantinePlace above oid <+: place :=
    fun oid member => ⟨fun starts => inStore ⟨oid, member, starts⟩,
      fun starts => inQuarantine ⟨oid, member, starts⟩⟩
  exact (one.elsewhere place away).agree
    (two.elsewhere place fun oid member => away oid ((same oid).mp member))

end Underway

/-- Objects that can be moved are moved, in whatever order. -/
theorem setAsides_of_movable (site : store.Site tree above) (whole : 0 ∉ store.root)
    {oids : List Bytes} (nodup : oids.Nodup)
    (movable : ∀ oid ∈ oids, store.Movable tree above oid) (session : Session)
    (underway : Underway session.journal tree session.files above []) :
    let result := (oids.forM store.setAside : Audit Unit) session
    result.1 = .ok () ∧ Underway session.journal tree result.2.files above oids := by
  intro result
  obtain ⟨moved, rest, rfl, further, -, -, stops⟩ :=
    setAsides_move site whole (fun oid member => (movable oid member).valid) session underway
  rw [List.nil_append] at further
  cases rest with
  | nil =>
      rw [List.append_nil]
      exact ⟨stops, further⟩
  | cons oid rest =>
      obtain ⟨errno, refused, -⟩ := stops
      have fresh : oid ∉ moved := fun member =>
        (List.nodup_append.mp nodup).2.2 oid member oid List.mem_cons_self rfl
      obtain ⟨next, happened⟩ := further.exists_rename site whole
        (fun other member => movable other (List.mem_append_left _ member))
        (movable oid (List.mem_append_right _ List.mem_cons_self)) fresh
      cases refused.symm.trans happened

/-- Wherever the root of the store leads, none of the objects is a directory or the open journal
file. -/
def Clear (store : Store) (journal : Journal) (tree : FileTree) (oids : List Bytes) : Prop :=
  ∀ passed above,
    tree.Leads (origin tree.workDir store.quarantine) (names store.root) passed above →
    ∀ oid ∈ oids,
      (∀ entry, tree.get? (objectPlace above oid) = some entry → entry.isDirectory = false) ∧
        journal.sink ≠ .file (objectPlace above oid)

/-- A store is clear of what could get in the way if no directory has an object's name. -/
theorem clear_of_entries {oids : List Bytes} (noFile : ∀ place, journal.sink ≠ .file place)
    (other : ∀ pair ∈ tree.entries, pair.2.isDirectory = true →
      ∀ oid ∈ oids, pair.1.getLast? ≠ some oid) :
    store.Clear journal tree oids := by
  intro passed above _ oid member
  refine ⟨fun entry found => ?_, noFile _⟩
  rw [Bool.eq_false_iff]
  intro isDirectory
  rw [get?_eq_lookup tree (by simp [objectPlace])] at found
  refine other _ (mem_of_lookup found) isDirectory oid member ?_
  rw [objectPlace, ← List.append_assoc, List.getLast?_concat]

/-- Files and objects of a store for which the order of the moves in a repair does not matter. -/
structure Reorderable (store : Store) (journal : Journal) (files : FileTree) (oids : List Bytes) :
    Prop where
  isTree : files.IsTree
  plain : store.Plain (files.makeDirectories store.quarantine).1
  clear : store.Clear journal (files.makeDirectories store.quarantine).1 oids

/-- The session in which a repair begins to move objects. -/
def prepared (store : Store) (session : Session) : Session :=
  attempted (store.announced session) (.makeDirectories store.quarantine)

/-- Once its directory is made, a repair moves its objects. -/
theorem repair_of_made {session : Session}
    (made : (session.files.makeDirectories store.quarantine).2 = .ok ()) :
    store.repair session = store.moveEach session.report.corrupt (store.prepared session) := by
  have performed :
      ((store.announced session).files.perform (.makeDirectories store.quarantine)).2 = .ok () :=
    made
  rw [repair_apply, moveAll, bind_apply, change_apply, performed]
  rfl

/-- A repair that succeeds has made its quarantine. -/
theorem made_of_repair {session after : Session} {count : Nat}
    (repaired : store.repair session = (.ok count, after)) :
    (session.files.makeDirectories store.quarantine).2 = .ok () := by
  rw [repair_apply, moveAll, bind_apply, change_apply] at repaired
  cases made : ((store.announced session).files.perform (.makeDirectories store.quarantine)).2 with
  | ok done => exact made
  | error errno =>
      rw [made] at repaired
      cases repaired

private theorem files_prepared {session : Session} {base : FileTree} {events : List (Int × Bytes)}
    (files : session.files = session.journal.writeAll base events) :
    (store.prepared session).files =
      session.journal.writeAll (base.makeDirectories store.quarantine).1 events := by
  have written := session.journal.makeDirectories_writeAll base events store.quarantine
  rw [← files] at written
  exact congrArg Prod.fst written

private theorem underway_prepared {session : Session} {base : FileTree}
    {events : List (Int × Bytes)}
    (site : store.Site (base.makeDirectories store.quarantine).1 above)
    (files : session.files = session.journal.writeAll base events) :
    Underway (store.prepared session).journal (base.makeDirectories store.quarantine).1
      (store.prepared session).files above [] := by
  rw [files_prepared files]
  exact (Underway.start session.journal site.isTree above).writeAll events

/-- A repair that does not fail has moved all its objects. -/
theorem stood_of_repair {session after : Session} {base : FileTree} {count : Nat}
    {events : List (Int × Bytes)} (whole : 0 ∉ store.root)
    (valid : ∀ oid ∈ session.report.corrupt, Digest.isText oid = true)
    (site : store.Site (base.makeDirectories store.quarantine).1 above)
    (files : session.files = session.journal.writeAll base events)
    (repaired : store.repair session = (.ok count, after)) :
    count = session.report.corrupt.length ∧
      (∀ oid ∈ session.report.corrupt,
        store.Stood (base.makeDirectories store.quarantine).1 above oid) ∧
      Underway session.journal (base.makeDirectories store.quarantine).1 after.files above
        session.report.corrupt := by
  rw [repair_of_made (made_of_repair repaired), moveEach, bind_pure_apply] at repaired
  obtain ⟨moved, rest, parts, last, stood, -, stops⟩ :=
    setAsides_move site whole valid (store.prepared session) (underway_prepared site files)
  obtain ⟨outcome, rfl⟩ := Prod.mk.inj repaired
  cases rest with
  | cons oid rest =>
      obtain ⟨errno, -, failed⟩ := stops
      rw [failed] at outcome
      cases outcome
  | nil =>
      rw [List.append_nil] at parts
      rw [List.nil_append, ← parts] at last
      rw [← parts] at stood
      rw [show _ = (.ok () : Except Failure Unit) from stops] at outcome
      exact ⟨(Except.ok.inj outcome).symm, stood, last⟩

/-- All objects of a repair that does not fail could be moved, and were. -/
theorem movable_of_repair {session after : Session} {base : FileTree} {count : Nat}
    {events : List (Int × Bytes)} (whole : 0 ∉ store.root)
    (valid : ∀ oid ∈ session.report.corrupt, Digest.isText oid = true)
    (site : store.Site (base.makeDirectories store.quarantine).1 above)
    (flat : ∀ oid ∈ session.report.corrupt, ∀ entry,
      (base.makeDirectories store.quarantine).1.get? (objectPlace above oid) = some entry →
        entry.isDirectory = false)
    (files : session.files = session.journal.writeAll base events)
    (repaired : store.repair session = (.ok count, after)) :
    count = session.report.corrupt.length ∧
      (∀ oid ∈ session.report.corrupt,
        store.Movable (base.makeDirectories store.quarantine).1 above oid) ∧
      Underway session.journal (base.makeDirectories store.quarantine).1 after.files above
        session.report.corrupt := by
  obtain ⟨all, stood, last⟩ := stood_of_repair whole valid site files repaired
  exact ⟨all, last.movable valid stood flat, last⟩

/-- A repair whose objects can be moved does not fail. -/
theorem repair_of_movable {session : Session} {base : FileTree} {events : List (Int × Bytes)}
    (whole : 0 ∉ store.root) (nodup : session.report.corrupt.Nodup)
    (site : store.Site (base.makeDirectories store.quarantine).1 above)
    (movable : ∀ oid ∈ session.report.corrupt,
      store.Movable (base.makeDirectories store.quarantine).1 above oid)
    (files : session.files = session.journal.writeAll base events)
    (made : (session.files.makeDirectories store.quarantine).2 = .ok ()) :
    (store.repair session).1 = .ok session.report.corrupt.length ∧
      Underway session.journal (base.makeDirectories store.quarantine).1
        (store.repair session).2.files above session.report.corrupt := by
  obtain ⟨outcome, underway⟩ :=
    setAsides_of_movable site whole nodup movable (store.prepared session)
      (underway_prepared site files)
  rw [repair_of_made made, moveEach, bind_pure_apply]
  refine ⟨?_, underway⟩
  rw [outcome]
  rfl

/-- In a store whose root is cut off, every path leads where the root does. -/
theorem rename_of_cut (cut : 0 ∈ store.root) (tree : FileTree) (oid : Bytes) :
    tree.rename (store.pathOf oid) (store.quarantinePath oid) =
      tree.rename store.root store.root := by
  apply tree.rename_congr
  · rw [pathOf_eq, Bytes.beforeNul_append_of_mem cut]
  · rw [quarantinePath_eq, Bytes.beforeNul_append_of_mem cut]

/-- If it can be renamed to itself, that happens once for each object. -/
theorem setAsides_of_cut (cut : 0 ∈ store.root) {oids : List Bytes}
    (valid : ∀ oid ∈ oids, Digest.isText oid = true) (session : Session)
    (still : oids ≠ [] → session.files.rename store.root store.root = .ok session.files) :
    let result := (oids.forM store.setAside : Audit Unit) session
    result.1 = .ok () ∧ session.journal.Agree session.files result.2.files := by
  induction oids generalizing session with
  | nil => exact ⟨rfl, .refl _ _⟩
  | cons oid rest ih =>
      have happened := still (List.cons_ne_nil oid rest)
      rw [← rename_of_cut cut _ oid] at happened
      obtain ⟨after, text, step, files, journal, -⟩ :=
        setAside_of_moved (valid oid List.mem_cons_self) happened
      have written := Journal.Agree.write session.journal session.files Journal.noteLevel text
      rw [← files] at written
      have validRest (other : Bytes) (member : other ∈ rest) : Digest.isText other = true :=
        valid other (List.mem_cons_of_mem _ member)
      obtain ⟨outcome, agree⟩ := ih validRest after fun _ =>
        written.sameOutline.rename_self (still (List.cons_ne_nil oid rest))
      have course : (List.forM (oid :: rest) store.setAside : Audit Unit) session =
          (rest.forM store.setAside : Audit Unit) after := bind_apply_of_ok step
      rw [journal] at agree
      rw [course]
      exact ⟨outcome, written.trans agree⟩

private theorem still_of_setAsides (cut : 0 ∈ store.root) {oids : List Bytes}
    (valid : ∀ oid ∈ oids, Digest.isText oid = true) {session after : Session}
    (moved : (oids.forM store.setAside : Audit Unit) session = (.ok (), after))
    (nonempty : oids ≠ []) :
    session.files.rename store.root store.root = .ok session.files := by
  cases oids with
  | nil => exact absurd rfl nonempty
  | cons oid rest =>
      obtain ⟨_, middle, first, -⟩ := bind_eq_ok moved
      rw [← rename_of_cut cut _ oid]
      cases happened : session.files.rename (store.pathOf oid) (store.quarantinePath oid) with
      | error errno =>
          obtain ⟨_, refused, -⟩ := setAside_of_refused (valid oid List.mem_cons_self) happened
          cases refused.symm.trans first
      | ok next =>
          rw [rename_of_cut cut] at happened
          rw [(rename_self_eq_ok_iff.mp happened).1]

private theorem repair_of_cut (cut : 0 ∈ store.root) {session : Session}
    (valid : ∀ oid ∈ session.report.corrupt, Digest.isText oid = true)
    (made : (session.files.makeDirectories store.quarantine).2 = .ok ())
    (still : session.report.corrupt ≠ [] →
      (store.prepared session).files.rename store.root store.root =
        .ok (store.prepared session).files) :
    (store.repair session).1 = .ok session.report.corrupt.length ∧
      session.journal.Agree (store.prepared session).files (store.repair session).2.files := by
  obtain ⟨outcome, agree⟩ := setAsides_of_cut cut valid (store.prepared session) still
  rw [repair_of_made made, moveEach, bind_pure_apply]
  refine ⟨?_, agree⟩
  rw [outcome]
  rfl

private theorem repair_of_perm_of_cut (cut : 0 ∈ store.root) {session other after : Session}
    {base : FileTree} {count : Nat} {events more : List (Int × Bytes)}
    (valid : ∀ oid ∈ session.report.corrupt, Digest.isText oid = true)
    (journal : other.journal = session.journal)
    (files : session.files = session.journal.writeAll base events)
    (otherFiles : other.files = session.journal.writeAll base more)
    (perm : other.report.corrupt.Perm session.report.corrupt)
    (made : (session.files.makeDirectories store.quarantine).2 = .ok ())
    (otherMade : (other.files.makeDirectories store.quarantine).2 = .ok ())
    (repaired : store.repair session = (.ok count, after)) :
    (store.repair other).1 = .ok count ∧
      session.journal.Agree after.files (store.repair other).2.files := by
  have prepared : session.journal.Agree (store.prepared session).files
      (store.prepared other).files := by
    rw [← journal] at otherFiles
    rw [files_prepared files, files_prepared otherFiles, journal]
    exact (Journal.Agree.writeAll _ _ _).symm.trans (.writeAll _ _ _)
  have still (nonempty : session.report.corrupt ≠ []) :
      (store.prepared session).files.rename store.root store.root =
        .ok (store.prepared session).files := by
    rw [repair_of_made made, moveEach, bind_pure_apply] at repaired
    cases moved : (session.report.corrupt.forM store.setAside : Audit Unit)
        (store.prepared session) with
    | mk outcome reached =>
        rw [moved] at repaired
        cases outcome with
        | error failure => cases repaired
        | ok done => exact still_of_setAsides cut valid moved nonempty
  have otherStill (nonempty : other.report.corrupt ≠ []) :
      (store.prepared other).files.rename store.root store.root =
        .ok (store.prepared other).files := by
    refine prepared.sameOutline.rename_self (still fun empty => nonempty ?_)
    rw [empty] at perm
    exact perm.eq_nil
  obtain ⟨outcome, agree⟩ := repair_of_cut cut valid made still
  obtain ⟨otherOutcome, otherAgree⟩ :=
    repair_of_cut cut (fun oid member => valid oid (perm.mem_iff.mp member)) otherMade otherStill
  rw [repaired] at outcome agree
  rw [journal] at otherAgree
  refine ⟨?_, agree.symm.trans (prepared.trans otherAgree)⟩
  rw [otherOutcome, perm.length_eq, ← outcome]

/-- **A repair that moves all its objects could move them in any order**, with the same files left
but for the records of an open journal file. -/
theorem repair_of_perm {session other after : Session} {base : FileTree} {count : Nat}
    {events more : List (Int × Bytes)}
    (reorderable : 0 ∉ store.root →
      store.Reorderable session.journal base session.report.corrupt)
    (valid : ∀ oid ∈ session.report.corrupt, Digest.isText oid = true)
    (nodup : session.report.corrupt.Nodup) (journal : other.journal = session.journal)
    (files : session.files = session.journal.writeAll base events)
    (otherFiles : other.files = session.journal.writeAll base more)
    (perm : other.report.corrupt.Perm session.report.corrupt)
    (repaired : store.repair session = (.ok count, after)) :
    (store.repair other).1 = .ok count ∧
      session.journal.Agree after.files (store.repair other).2.files := by
  have made := made_of_repair repaired
  rw [files, session.journal.makeDirectories_writeAll base events] at made
  have otherMade : (other.files.makeDirectories store.quarantine).2 = .ok () := by
    rw [otherFiles, session.journal.makeDirectories_writeAll base more]
    exact made
  by_cases cut : 0 ∈ store.root
  · exact repair_of_perm_of_cut cut valid journal files otherFiles perm (made_of_repair repaired)
      otherMade repaired
  obtain ⟨isTree, plain, clear⟩ := reorderable cut
  have there := isDirectory_of_makeDirectories (by simp [quarantine_eq]) made
  obtain ⟨above, site⟩ := exists_site (makeDirectories_isTree isTree _) cut plain there
  obtain ⟨passed, leads, -⟩ := site.leads
  have apart := clear passed above leads
  obtain ⟨rfl, movable, last⟩ := movable_of_repair cut valid site
    (fun oid member => (apart oid member).1) files repaired
  rw [← journal] at otherFiles
  obtain ⟨outcome, otherLast⟩ := repair_of_movable cut (perm.nodup_iff.mpr nodup) site
    (fun oid member => movable oid (perm.mem_iff.mp member)) otherFiles otherMade
  rw [journal] at otherLast
  refine ⟨?_, last.agree site.isTree otherLast (fun oid => perm.mem_iff)
    (fun oid member => (apart oid member).1) fun oid member => (apart oid member).2⟩
  rw [outcome, perm.length_eq]

end Store

end StoreAudit
