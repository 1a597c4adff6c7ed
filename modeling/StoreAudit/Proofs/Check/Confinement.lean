import Mathlib.Algebra.Group.Int.Defs
import StoreAudit.Proofs.Check.Account
import StoreAudit.Proofs.Scan.Trees
import StoreAudit.Proofs.Scan.WellFormed
import StoreAudit.Proofs.Store.Paths

/-!
# Content cannot steer a check

The path of an object is made of the root of the store and a name that was found to be one, so it is
never one of the other paths of the store. Besides new files for the error streams of git, which lie
elsewhere, nothing else is opened by a check, and what it moves goes from there to the directory of
objects out of service (`Store.check_confined`).
-/

namespace StoreAudit

open Audit

namespace Store

section Paths

variable (store : Store)

/-- The path of an object with a valid name. -/
theorem objectPath_of_isText {oid : Bytes} (valid : Digest.isText oid = true) :
    store.objectPath oid = .ok (store.pathOf oid) := if_pos valid

private theorem objectPath_eq_ok {oid path : Bytes} (named : store.objectPath oid = .ok path) :
    Digest.isText oid = true ∧ path = store.pathOf oid := by
  unfold objectPath at named
  split at named
  · exact ⟨‹_›, (Except.ok.inj named).symm⟩
  · cases named

private theorem pathOf_injective {first second : Bytes} (valid : Digest.isText first = true)
    (other : Digest.isText second = true) (same : store.pathOf first = store.pathOf second) :
    first = second := by
  have lengths : (Ascii.slash :: first).length = (Ascii.slash :: second).length := by
    rw [List.length_cons, List.length_cons, (Digest.isText_iff.mp valid).1,
      (Digest.isText_iff.mp other).1]
  exact (List.cons.inj (List.append_inj_right' same lengths)).2

/-- What lies below another name of the root is not the path of an object. -/
theorem pathOf_ne (oid : Bytes) {first : UInt8} (rest : Bytes) (elsewhere : first ≠ 111) :
    store.pathOf oid ≠ store.root ++ Ascii.slash :: first :: rest := by
  rw [pathOf_eq]
  intro same
  have names := (List.cons.inj (List.append_cancel_left same)).2
  exact elsewhere (List.cons.inj names).1.symm

/-- The path is none of those that the store uses for something else than objects. -/
def OnlyObject (path : Bytes) : Prop :=
  path ≠ store.quarantine ∧ (∀ oid, path ≠ store.quarantinePath oid) ∧ path ≠ store.lockPath ∧
    path ≠ store.journalPath

private theorem onlyObject_pathOf (oid : Bytes) : store.OnlyObject (store.pathOf oid) := by
  refine ⟨store.pathOf_ne oid (ascii "ad") (by decide), fun other => ?_,
    store.pathOf_ne oid (ascii "sck.lock") (by decide),
    store.pathOf_ne oid (ascii "ogs/lfs.log") (by decide)⟩
  rw [quarantinePath_eq]
  exact store.pathOf_ne oid (ascii "ad" ++ Ascii.slash :: other) (by decide)

end Paths

private theorem base_append_cons {above name : Bytes} (whole : Ascii.slash ∉ name) :
    PathName.base (above ++ Ascii.slash :: name) = name := by
  have inName : ∀ byte ∈ name.reverse, (byte != Ascii.slash) = true := by
    intro byte member
    rw [bne_iff_ne]
    rintro rfl
    exact whole (List.mem_reverse.mp member)
  rw [PathName.base, List.reverse_append, List.reverse_cons, List.append_assoc,
    List.takeWhile_append_of_pos inName]
  simp

private theorem base_spawn (spawn : Spawn) :
    PathName.base spawn.path = ascii "lfs-git-stderr." ++ spawn.letters := by
  have whole : Ascii.slash ∉ ascii "lfs-git-stderr." ++ spawn.letters := by
    rw [List.mem_append, not_or]
    exact ⟨by decide, fun member => absurd (List.all_eq_true.mp spawn.plain _ member) (by decide)⟩
  have shape : spawn.path =
      ascii "/tmp" ++ Ascii.slash :: (ascii "lfs-git-stderr." ++ spawn.letters) := rfl
  rw [shape, base_append_cons whole]

/-- The path is none of those that the store uses, for objects or for something else. -/
structure IsForeign (store : Store) (path : Bytes) : Prop where
  objects : ∀ oid, Digest.isText oid = true → path ≠ store.pathOf oid
  setAside : ∀ oid, Digest.isText oid = true → path ≠ store.quarantinePath oid
  quarantine : path ≠ store.quarantine
  lock : path ≠ store.lockPath
  journal : path ≠ store.journalPath

/-- The files for the error streams of git have no path of a store, whatever its root. -/
theorem isForeign_spawn (store : Store) (spawn : Spawn) : store.IsForeign spawn.path := by
  have length : (PathName.base spawn.path).length = 21 := by
    rw [base_spawn, List.length_append, spawn.six]
    rfl
  have apart {above name : Bytes} (whole : Ascii.slash ∉ name) (other : name.length ≠ 21) :
      spawn.path ≠ above ++ Ascii.slash :: name := by
    intro same
    rw [same, base_append_cons whole] at length
    exact other length
  have valid {oid : Bytes} (isText : Digest.isText oid = true) :
      Ascii.slash ∉ oid ∧ oid.length ≠ 21 := by
    obtain ⟨length, hex⟩ := Digest.isText_iff.mp isText
    exact ⟨fun member => absurd (hex _ member) (by decide), by omega⟩
  refine ⟨fun oid isText => ?_, fun oid isText => ?_, ?_, ?_, ?_⟩
  · rw [pathOf]
    exact apart (valid isText).1 (valid isText).2
  · rw [quarantinePath_eq, ← List.cons_append, ← List.append_assoc]
    exact apart (valid isText).1 (valid isText).2
  · exact apart (show Ascii.slash ∉ ascii "bad" by decide) (by decide)
  · exact apart (show Ascii.slash ∉ ascii "fsck.lock" by decide) (by decide)
  · rw [journalPath, show ascii "/logs/lfs.log" = ascii "/logs" ++ Ascii.slash :: ascii "lfs.log"
      from rfl, ← List.append_assoc]
    exact apart (by decide) (by decide)

variable {store : Store}

/-- What a check may do to the files: take and give back its lock, make the directory of objects out
of service, and move objects there. -/
inductive Allows (store : Store) : Change → Prop
  | takesLock (target : Bytes) : Allows store (.makeLink target store.lockPath)
  | returnsLock : Allows store (.remove store.lockPath)
  | makesQuarantine : Allows store (.makeDirectories store.quarantine)
  | setsAside {oid : Bytes} : Digest.isText oid = true →
      Allows store (.rename (store.pathOf oid) (store.quarantinePath oid))

/-- All that was opened on the way to the later session are paths of objects and new files for the
error streams of children, and all that was attempted is allowed. -/
structure Confines (store : Store) (before after : Session) : Prop where
  opened : ∃ oids : List Bytes, (∀ oid ∈ oids, Digest.isText oid = true) ∧
    after.opened = before.opened ++ oids.map store.pathOf
  spools : before.Spools after
  changes : ∃ made, (∀ change ∈ made, store.Allows change) ∧
    after.changes = before.changes ++ made

instance : IsPreorder Session store.Confines where
  refl session := ⟨⟨[], by simp⟩, refl session, [], by simp⟩
  trans _ _ _ first second := by
    obtain ⟨oids, valid, opened⟩ := first.opened
    obtain ⟨others, validToo, openedLater⟩ := second.opened
    obtain ⟨made, allowed, changes⟩ := first.changes
    obtain ⟨more, allowedToo, changesLater⟩ := second.changes
    refine ⟨⟨oids ++ others, ?_, ?_⟩, IsTrans.trans _ _ _ first.spools second.spools,
      made ++ more, ?_, ?_⟩
    · exact List.forall_mem_append.mpr ⟨valid, validToo⟩
    · rw [openedLater, opened, List.map_append, List.append_assoc]
    · exact List.forall_mem_append.mpr ⟨allowed, allowedToo⟩
    · rw [changesLater, changes, List.append_assoc]

/-- A session in which nothing more was opened or attempted but for the error streams of children.
-/
theorem confines_of_same {before after : Session} (opened : after.opened = before.opened)
    (spools : before.Spools after) (changes : after.changes = before.changes) :
    store.Confines before after :=
  ⟨⟨[], by simp [opened]⟩, spools, [], by simp [changes]⟩

private theorem confines_attempted {change : Change} (allowed : store.Allows change)
    (session : Session) : store.Confines session (attempted session change) :=
  ⟨⟨[], by simp [attempted]⟩, .of_eq rfl, [change], by simpa using allowed, rfl⟩

private theorem confines_checkObject (pointer : FoundPointer) :
    Within store.Confines (store.checkObject pointer) := by
  intro session
  obtain ⟨_, after, _, examines, _, checked⟩ := store.checkObject_apply pointer session
  have opened := store.opened_checkObject pointer session
  have spools := store.looks_spools.checks pointer session
  rw [checked] at opened spools ⊢
  refine ⟨?_, spools, [], by simp [examines.observes.changes]⟩
  cases named : store.objectPath pointer.oid with
  | error failure => exact ⟨[], by simpa [opens, named, Except.toOption] using opened⟩
  | ok path =>
      obtain ⟨valid, rfl⟩ := store.objectPath_eq_ok named
      exact ⟨[pointer.oid], by simpa using valid,
        by simpa [opens, named, Except.toOption] using opened⟩

private theorem looks_confines (store : Store) : store.Looks store.Confines where
  asks feed session := by
    have scans := feed.scanning_next.within session
    exact confines_of_same scans.opened scans.spools scans.changes
  checks := confines_checkObject
  reports _ _ := confines_of_same rfl (.of_eq rfl) rfl
  records _ _ _ := confines_of_same rfl (.of_eq rfl) rfl
  begins _ _ := confines_of_same rfl (.of_eq rfl) rfl

private theorem kept_confines (store : Store) : Kept store.Confines store.Allows where
  record _ _ _ := confines_of_same rfl (.of_eq rfl) rfl
  attempt _ session allowed := confines_attempted allowed session

private theorem allowedFor_allows (store : Store) : store.AllowedFor store.Allows where
  takes := .takesLock
  returns := .returnsLock
  makes := .makesQuarantine
  moves oid source named := by
    obtain ⟨valid, rfl⟩ := store.objectPath_eq_ok named
    exact .setsAside valid

private theorem confines_checkFollowing (store : Store) (options : CheckOptions)
    (source : ScanSource) (schedule : List PoolThread) :
    Within store.Confines (store.checkFollowing options source schedule) :=
  store.kept_confines.checkBy options source store.allowedFor_allows
    (fun _ _ => confines_of_same rfl (.of_eq rfl) rfl)
    (store.looks_confines.passesFollowing options source schedule)

/-- **Content cannot steer a check.** Whatever a repository holds, and however its scan has gone so
far, a pointer that is delivered names an object by 64 lowercase digits, gives it a size from 0 to
below 2 ^ 63, and has a path. Only such names have paths, different names have different ones, and
none of these is the lock, the journal, the directory of objects out of service or the path of one
of those. All that a check opens are paths of objects and the new files that take what git writes to
its error streams, none of which is a path of the store. All that it moves are objects, each from
its path to the one it has out of service. -/
theorem check_confined (store : Store) :
    (∀ part later pointer session after, Section.Reached part →
      part.next session = (.ok (some (.pointer pointer, later)), after) →
      pointer.oid.length = 64 ∧ (∀ byte ∈ pointer.oid, Hex.isDigit byte = true) ∧
        0 ≤ pointer.size.toInt ∧ pointer.size.toInt < 2 ^ 63 ∧
        store.objectPath pointer.oid = .ok (store.pathOf pointer.oid)) ∧
    (∀ text, (text.length = 64 ∧ ∀ byte ∈ text, Hex.isDigit byte = true) →
      store.objectPath text = .ok (store.root ++ ascii "/objects/" ++ text.take 2 ++
        Ascii.slash :: (text.drop 2).take 2 ++ Ascii.slash :: text)) ∧
    (∀ text, ¬ (text.length = 64 ∧ ∀ byte ∈ text, Hex.isDigit byte = true) →
      store.objectPath text = .error (.invalidObjectName text) ∧
        (Failure.invalidObjectName text).kind = .coded .invalidArguments) ∧
    (∀ first second path, store.objectPath first = .ok path → store.objectPath second = .ok path →
      first = second) ∧
    (∀ text path, store.objectPath text = .ok path → store.OnlyObject path) ∧
    (∀ spawn : Spawn, store.IsForeign spawn.path) ∧
    ∀ options source session,
      (∀ schedule, store.Confines session
        (store.checkFollowing options source schedule session).2) ∧
      store.Confines session (store.check options source session).2 := by
  refine ⟨fun part later pointer session after reached delivered => ?_, fun text valid => ?_,
    fun text invalid => ⟨?_, rfl⟩, fun first second path named other => ?_,
    fun text path named => ?_, store.isForeign_spawn, fun options source session => ?_⟩
  · have wellFormed : pointer.WellFormed := reached.wellFormed_next delivered
    obtain ⟨length, digits⟩ := Digest.isText_iff.mp wellFormed.oid
    exact ⟨length, digits, Int64.le_iff_toInt_le.mp wellFormed.size, pointer.size.toInt_lt,
      store.objectPath_of_isText wellFormed.oid⟩
  · exact store.objectPath_of_isText (Digest.isText_iff.mpr valid)
  · rw [objectPath, if_neg fun isText => invalid (Digest.isText_iff.mp isText)]
  · obtain ⟨valid, rfl⟩ := store.objectPath_eq_ok named
    obtain ⟨validToo, same⟩ := store.objectPath_eq_ok other
    exact store.pathOf_injective valid validToo same
  · obtain ⟨-, rfl⟩ := store.objectPath_eq_ok named
    exact store.onlyObject_pathOf text
  · refine ⟨fun schedule => store.confines_checkFollowing options source schedule session, ?_⟩
    obtain ⟨schedule, same⟩ := store.check_eq_checkFollowing options source session
    rw [same]
    exact store.confines_checkFollowing options source schedule session

/-- A tree that tracks a pointer, whose item names an object. -/
theorem check_confined_of_tracked_tree :
    ∃ pointer later after, Section.next (.trees TreeScan.trackedFirst [] (ascii "tip") {}) {} =
        (.ok (some (.pointer pointer, later)), after) ∧
      Store.objectPath ⟨ascii "s"⟩ pointer.oid = .ok (Store.pathOf ⟨ascii "s"⟩ pointer.oid) := by
  have some : (Section.next (.trees TreeScan.trackedFirst [] (ascii "tip") {}) {}).1.toOption.any
      (fun found => found.any fun (item, _) => item.onlyPointer.toOption.isSome) = true := by
    decide +kernel
  rcases shape : Section.next (.trees TreeScan.trackedFirst [] (ascii "tip") {}) {} with
    ⟨failure | _ | ⟨pointer | _, later⟩, after⟩ <;> rw [shape] at some
  · cases some
  · cases some
  · exact ⟨pointer, later, after, rfl,
      ((check_confined ⟨ascii "s"⟩).1 _ _ _ _ _ .trees shape).2.2.2.2⟩
  · cases some

/-- A check that asks git opens a file that is no object, in service or out of it. -/
theorem check_opens_spool :
    let store : Store := ⟨ascii "s"⟩
    let source := TreeScan.trackedFirst.source { stop := ascii "tip" } {}
    ∃ path ∈ (store.check { dryRun := true } source {}).2.spools,
      ∀ oid, Digest.isText oid = true →
        path ≠ store.pathOf oid ∧ path ≠ store.quarantinePath oid := by
  intro store source
  have foreign := store.isForeign_spawn .granted
  exact ⟨Spawn.granted.path, by decide +kernel,
    fun oid valid => ⟨foreign.objects oid valid, foreign.setAside oid valid⟩⟩

end Store

end StoreAudit
