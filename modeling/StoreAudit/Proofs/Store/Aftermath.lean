import StoreAudit.Proofs.Store.Ways

/-!
# What a repair leaves

After a repair that moved all its objects, their paths lead to vacant names in directories that are
there, and every other path of an object names what it named before (`Store.Repaired`). Such objects
cannot be opened and cannot be moved again, and the quarantine need not be made again.
-/

namespace StoreAudit

open FileTree

private theorem Journal.Extends.exists_directory {journal : Journal} {place : Place}
    {before after : Option Entry} (extends_ : journal.Extends place before after)
    (there : ∃ entry, before = some entry ∧ entry.isDirectory = true) :
    ∃ entry, after = some entry ∧ entry.isDirectory = true := by
  obtain ⟨entry, rfl, isDirectory⟩ := there
  obtain ⟨other, rfl, same⟩ := extends_.isDirectory_of_some
  exact ⟨other, rfl, same.trans isDirectory⟩

namespace Store

variable {store : Store} {journal : Journal} {tree later last : FileTree} {above : Place}
  {left : Nat} {oids : List Bytes} {oid : Bytes}

/-- The objects that a repair has moved are gone from their places, in directories that are there,
and every other object is where it was. -/
structure Repaired (store : Store) (journal : Journal) (tree later : FileTree) (above : Place)
    (left : Nat) (oids : List Bytes) : Prop where
  way : store.Way later above left
  kept : ∀ oid ∉ oids, ∀ part, part ≠ [] → part <+: objectDirectory oid ++ [oid] →
    journal.Extends (above ++ part) (tree.get? (above ++ part)) (later.get? (above ++ part))
  gone : ∀ oid ∈ oids, later.get? (objectPlace above oid) = none
  directories : ∀ oid ∈ oids, ∀ part, part ≠ [] → part <+: objectDirectory oid →
    ∃ entry, later.get? (above ++ part) = some entry ∧ entry.isDirectory = true
  quarantine : oids ≠ [] →
    ∃ entry, later.get? (above ++ [ascii "bad"]) = some entry ∧ entry.isDirectory = true
  fits : ∀ oid ∈ oids, refusal? (store.pathOf oid).beforeNul = none ∧
    refusal? (store.quarantinePath oid).beforeNul = none

private theorem prefix_singleton {α : Type} {part : List α} {only : α} (nonempty : part ≠ [])
    (starts : part <+: [only]) : part = [only] := by
  obtain ⟨first, rest, rfl⟩ := List.exists_cons_of_ne_nil nonempty
  obtain ⟨rfl, nothing⟩ := List.cons_prefix_cons.mp starts
  rw [List.prefix_nil.mp nothing]

private theorem prefix_objectPlace {part : List Bytes} (starts : part <+: objectDirectory oid) :
    part <+: objectDirectory oid ++ [oid] :=
  starts.trans (List.prefix_append _ _)

namespace Repaired

/-- Before anything is moved. -/
theorem start (journal : Journal) (way : store.Way tree above left) :
    store.Repaired journal tree tree above left [] where
  way := way
  kept _ _ _ _ _ := .inl rfl
  gone _ member := nomatch member
  directories _ member := nomatch member
  quarantine some := absurd rfl some
  fits _ member := nomatch member

/-- A tree in which the store is still there and that has the same where objects are. -/
theorem next (repaired : store.Repaired journal tree later above left oids)
    (way : store.Way last above left) (same : SameShelves journal above later last) :
    store.Repaired journal tree last above left oids where
  way := way
  kept oid fresh part nonempty starts :=
    (repaired.kept oid fresh part nonempty starts).trans (same.object nonempty starts)
  gone oid member := by
    have still : journal.Extends (objectPlace above oid) (later.get? (objectPlace above oid))
        (last.get? (objectPlace above oid)) :=
      same.object (by simp) (List.prefix_refl (objectDirectory oid ++ [oid]))
    rw [repaired.gone oid member] at still
    exact still.eq_of_noFile nofun
  directories oid member part nonempty starts :=
    (same.object nonempty (prefix_objectPlace starts)).exists_directory
      (repaired.directories oid member part nonempty starts)
  quarantine some :=
    (same (ascii "bad") (by decide) []).exists_directory (repaired.quarantine some)
  fits := repaired.fits

/-- Records leave a repaired store repaired. -/
theorem writeAll (repaired : store.Repaired journal tree later above left oids)
    (events : List (Int × Bytes)) :
    store.Repaired journal tree (journal.writeAll later events) above left oids :=
  repaired.next (repaired.way.keepsWays (journal.keepsWays_writeAll later events))
    (.writeAll journal above later events)

section Objects

variable (repaired : store.Repaired journal tree later above left oids) (whole : 0 ∉ store.root)
  (valid : Digest.isText oid = true)
include repaired whole valid

/-- An object that was moved is not where its path says. -/
theorem entryOf_gone (member : oid ∈ oids) :
    later.entryOf (store.pathOf oid) = .error .noEntry := by
  have gone := repaired.gone oid member
  rw [repaired.way.entryOf_object whole valid (repaired.fits oid member).1
    (repaired.directories oid member) (by simp [gone]), gone]

/-- Every other path of an object names what it named. -/
theorem entryOf_kept (way : store.Way tree above left) (linkless : Linkless tree above)
    (fresh : oid ∉ oids)
    (unlogged : ∀ place entry, tree.entryOf (store.pathOf oid) = .ok (place, entry) →
      journal.sink ≠ .file place) :
    later.entryOf (store.pathOf oid) = tree.entryOf (store.pathOf oid) :=
  way.entryOf_congr repaired.way whole valid (repaired.kept oid fresh)
    (fun _ nonempty starts => linkless.object nonempty starts) unlogged

/-- An object that was moved cannot be moved again. -/
theorem rename_gone (member : oid ∈ oids) :
    later.rename (store.pathOf oid) (store.quarantinePath oid) = .error .noEntry := by
  have source := repaired.way.spotOf_along (pathInto_pathOf whole valid)
    (repaired.fits oid member).1 (repaired.directories oid member)
  have target := repaired.way.spotOf_along (pathInto_quarantinePath whole valid)
    (repaired.fits oid member).2 fun part nonempty starts => by
      rw [prefix_singleton nonempty starts]
      exact repaired.quarantine (List.ne_nil_of_mem member)
  have short : ¬ oid.length > maxNameLength :=
    Nat.not_lt_of_le (pieces_of_valid valid oid (by simp)).2.1
  have gone : later.get? (above ++ objectDirectory oid ++ [oid]) = none := by
    rw [List.append_assoc]
    exact repaired.gone oid member
  simp only [rename, source, target, lookUp, short, if_false, gone]

end Objects

/-- The quarantine is not made again. -/
theorem makeDirectories (repaired : store.Repaired journal tree later above left oids)
    (whole : 0 ∉ store.root) (valid : ∀ oid ∈ oids, Digest.isText oid = true) (some : oids ≠ []) :
    later.makeDirectories store.quarantine = (later, .ok ()) := by
  obtain ⟨oid, rest, rfl⟩ := List.exists_cons_of_ne_nil some
  refine makeDirectories_of_isDirectory (by simp [quarantine_eq]) ?_
  obtain ⟨entry, found, isDirectory⟩ := repaired.quarantine some
  rw [repaired.way.isDirectory_quarantine_iff whole]
  · exact ⟨refusal?_quarantine whole (valid oid List.mem_cons_self)
      (repaired.fits oid List.mem_cons_self).2, entry, found, isDirectory⟩
  · intro target link
    rw [found, Option.some.injEq] at link
    rw [link] at isDirectory
    cases isDirectory

end Repaired

section Made

variable (way : store.Way tree above left) (isTree : tree.IsTree) (linkless : Linkless tree above)
  (stands : store.Stands tree) (whole : 0 ∉ store.root)
  (made : (tree.makeDirectories store.quarantine).2 = .ok ())
include way linkless

include isTree in
/-- Once its quarantine is made, a store is a site for repairs. -/
theorem site_of_made : store.Site (tree.makeDirectories store.quarantine).1 above := by
  have gains := makeDirectories_gains tree store.quarantine
  refine (way.keepsWays (.of_files gains.workDir fun place entry there _ =>
    gains.kept place entry there)).site (makeDirectories_isTree isTree _) ?_
  intro name shelf below target shown
  exact linkless name shelf below target (gains.noNewLink _ _ shown)

include isTree whole in
/-- An object whose path leads to its place has its directories. -/
theorem directories_of_stood (valid : Digest.isText oid = true)
    (stood : store.Stood (tree.makeDirectories store.quarantine).1 above oid) :
    ∀ part, part ≠ [] → part <+: objectDirectory oid →
      ∃ entry, (tree.makeDirectories store.quarantine).1.get? (above ++ part) = some entry ∧
        entry.isDirectory = true :=
  ((Underway.start {} (makeDirectories_isTree isTree _) above).spotOf_eq
    (site_of_made way isTree linkless) (pathInto_pathOf whole valid) stood.path).2.2

include stands whole made in
/-- Making the quarantine changes nothing about objects. -/
theorem get?_object_of_made {part : List Bytes} (nonempty : part ≠ [])
    (starts : part <+: objectDirectory oid ++ [oid]) :
    (tree.makeDirectories store.quarantine).1.get? (above ++ part) = tree.get? (above ++ part) := by
  obtain ⟨below, rfl⟩ := exists_below_of_prefix nonempty starts
  refine (way.makeDirectories_quarantine whole stands linkless made).1 _ fun same => ?_
  rw [List.append_right_inj, List.cons.injEq] at same
  exact absurd same.1 (by decide)

include isTree stands whole made in
/-- Objects that were moved and could be read could be moved. -/
theorem movable_of_readable (valid : ∀ oid ∈ oids, Digest.isText oid = true)
    (underway : Underway journal (tree.makeDirectories store.quarantine).1 later above oids)
    (stood : ∀ oid ∈ oids, store.Stood (tree.makeDirectories store.quarantine).1 above oid)
    (readable : ∀ oid ∈ oids, ∀ place entry,
      tree.entryOf (store.pathOf oid) = .ok (place, entry) → entry.isDirectory = false) :
    ∀ oid ∈ oids, store.Movable (tree.makeDirectories store.quarantine).1 above oid := by
  refine underway.movable valid stood fun oid member entry there => ?_
  have same {part : List Bytes} (nonempty : part ≠ [])
      (starts : part <+: objectDirectory oid ++ [oid]) :=
    get?_object_of_made way linkless stands whole made nonempty starts
  have found : tree.get? (objectPlace above oid) = some entry :=
    (same (by simp) (List.prefix_refl _)).symm.trans there
  have named := way.entryOf_object whole (valid oid member)
    (refusal?_of_spotOf (stood oid member).path) (fun part nonempty starts => ?_)
    fun target => linkless.object (by simp) (List.prefix_refl _) target
  · rw [found] at named
    exact readable oid member _ _ named
  · rw [← same nonempty (prefix_objectPlace starts)]
    exact directories_of_stood way isTree linkless whole (valid oid member) (stood oid member) part
      nonempty starts

include isTree stands whole made in
/-- A repair that moved all its objects leaves the store repaired. -/
theorem repaired_of_underway
    (underway : Underway journal (tree.makeDirectories store.quarantine).1 later above oids)
    (movable : ∀ oid ∈ oids, store.Movable (tree.makeDirectories store.quarantine).1 above oid) :
    tree.KeepsWays later ∧ store.Repaired journal tree later above left oids := by
  have gains := makeDirectories_gains tree store.quarantine
  have isTreeMade := makeDirectories_isTree isTree store.quarantine
  obtain ⟨-, bad, found, isDirectory⟩ :=
    way.makeDirectories_quarantine whole stands linkless made
  have ways : tree.KeepsWays later := by
    refine ⟨underway.workDir.trans gains.workDir, fun place entry there isDirectory =>
      underway.stays isTreeMade movable (gains.kept _ _ there) isDirectory, ?_⟩
    intro place target there
    have same := underway.elsewhere place fun oid _ => linkless.apart there oid
    rw [gains.kept _ _ there] at same
    exact same.eq_of_noFile nofun
  refine ⟨ways, way.keepsWays ways, ?_, ?_, ?_, ?_, ?_⟩
  · intro oid fresh part nonempty starts
    rw [← get?_object_of_made way linkless stands whole made nonempty starts]
    refine underway.elsewhere _ fun other member => ?_
    rcases List.prefix_concat_iff.mp starts with rfl | inside
    · have apart : ¬ objectPlace above other <+: objectPlace above oid ++ [] ∧
          ¬ quarantinePlace above other <+: objectPlace above oid ++ [] :=
        apart_objectPlace fresh [] other member
      rwa [List.append_nil] at apart
    · have inner : IsInner part := ⟨nonempty, .inr ⟨_, _, inside⟩⟩
      exact ⟨not_objectPlace_inner inner, not_quarantinePlace_inner inner⟩
  · intro oid member
    have gone := underway.gone oid member []
    rwa [List.append_nil] at gone
  · intro oid member part nonempty starts
    obtain ⟨entry, there, isDirectory⟩ := directories_of_stood way isTree linkless whole
      (movable oid member).valid (movable oid member).toStood part nonempty starts
    exact ⟨entry, underway.stays isTreeMade movable there isDirectory, isDirectory⟩
  · exact fun _ => ⟨bad, underway.stays isTreeMade movable found isDirectory, isDirectory⟩
  · exact fun oid member => ⟨refusal?_of_spotOf (movable oid member).path,
      refusal?_of_spotOf (movable oid member).quarantine⟩

end Made

end Store

end StoreAudit
