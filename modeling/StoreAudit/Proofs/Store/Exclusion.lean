import Mathlib.Data.Nat.Digits.Defs
import Mathlib.Logic.Relation
import StoreAudit.Proofs.Check.Course
import StoreAudit.Proofs.Store.Paths
import StoreAudit.Proofs.Text.Decimal

/-!
# The lock excludes

Any number of calls that take the lock of a store, and of owners that share it and give it back, run
one system call at a time in any order, while others may change anything but the lock and the way to
it. At most one call holds the lock, the link is there if and only if one does, everybody else is
refused and changes nothing, and when the last reference is gone the lock can be taken again
(`Store.lock_excludes`).
-/

namespace StoreAudit

namespace FileTree

variable {tree later : FileTree}

/-- A tree that keeps everything keeps every walk that comes to something. -/
theorem Reaches.keptIn_of_some (kept : tree.KeptIn later) {follow : Bool} {links : Nat}
    {place : Place} {path : List Bytes} {spot : Spot} {entry : Entry}
    (reaches : tree.Reaches follow links place path spot)
    (found : tree.get? spot.place = some entry) : later.Reaches follow links place path spot := by
  induction reaches with
  | stop => exact .stop
  | stay _ ih => exact .stay (ih found)
  | up _ ih => exact .up (ih found)
  | down ordinary short there isDirectory more _ ih =>
      obtain ⟨other, thereLater, same⟩ := kept.entry _ _ there
      have stillDirectory := (Entry.isDirectory_eq_of_outline same).trans isDirectory
      exact .down ordinary short thereLater stillDirectory more (ih found)
  | through ordinary short there goesOn _ ih =>
      obtain ⟨other, thereLater, same⟩ := kept.entry _ _ there
      cases Entry.outline_eq_link.mp same
      exact .through ordinary short thereLater goesOn (ih found)
  | last ordinary settled =>
      refine .last ordinary fun follows => ⟨(settled follows).1, fun target shown => ?_⟩
      -- A link that is there now was there before, since something was and it is kept.
      obtain ⟨other, foundLater, same⟩ := kept.entry _ _ found
      rw [Spot.place, shown] at foundLater
      cases foundLater
      have link := Entry.outline_eq_link.mp same.symm
      exact (settled follows).2 target (found.trans (congrArg some link))

private theorem KeptIn.isDirectory (kept : tree.KeptIn later) {path : Bytes}
    (there : tree.isDirectory path = true) : later.isDirectory path = true := by
  simp only [FileTree.isDirectory, entryOf, kept.workDir] at there ⊢
  cases refused : refusal? path.beforeNul with
  | some errno =>
      rw [refused] at there
      cases there
  | none =>
      rw [refused] at there
      dsimp only at there ⊢
      cases walked : tree.walk true maxLinks (origin tree.workDir path.beforeNul)
          (steps path.beforeNul) with
      | error errno =>
          rw [walked] at there
          cases there
      | ok spot =>
          rw [walked] at there
          dsimp only at there
          cases found : tree.get? spot.place with
          | none =>
              rw [found] at there
              cases there
          | some entry =>
              rw [found] at there
              have again := (walk_eq_ok_iff.mp walked).keptIn_of_some kept found
              obtain ⟨other, foundLater, same⟩ := kept.entry _ _ found
              rw [walk_eq_ok_iff.mpr again]
              dsimp only
              rw [foundLater]
              exact (Entry.isDirectory_eq_of_outline same).trans there

private theorem SameOutline.readLink?_eq (alike : tree.SameOutline later) (path : Bytes) :
    later.readLink? path = tree.readLink? path := by
  simp only [readLink?, alike.spotOf_eq]
  cases tree.spotOf path with
  | error errno => rfl
  | ok spot =>
      dsimp only
      rcases alike.cases spot.place with same | ⟨⟨data, again⟩, old, before⟩
      · rw [same]
      · rw [again, before]

private theorem SameOutline.erase (alike : tree.SameOutline later) (place : Place) :
    (tree.erase place).SameOutline (later.erase place) := by
  refine ⟨alike.workDir, fun other => ?_⟩
  cases place with
  | nil =>
      cases other with
      | nil => rfl
      | cons name rest =>
          rw [get?_erase_of_ne tree (by simp), get?_erase_of_ne later (by simp)]
          exact alike.entry _
  | cons first names =>
      by_cases same : other = first :: names
      · rw [same, get?_erase_self tree (by simp), get?_erase_self later (by simp)]
      · rw [get?_erase_of_ne tree same, get?_erase_of_ne later same]
        exact alike.entry other

end FileTree

namespace Journal

private theorem sameOutline_write (journal : Journal) (files : FileTree) (level : Int)
    (text : Bytes) : files.SameOutline (journal.write files level text) :=
  (journal.keptIn_write files level text).sameOutline fun _ => journal.get?_write_eq_none.mpr

end Journal

namespace Store

open Audit FileTree

/-- The store is there, and the path of its lock leads to a name in a directory. -/
structure Seat (store : Store) (files : FileTree) (above : Place) (name : Bytes) : Prop where
  there : files.isDirectory store.root = true
  spot : files.spotOf store.lockPath = .ok (.named above name)
  directory : files.get? above = some .directory

/-- The lock is not taken and can be. -/
structure Vacant (store : Store) (files : FileTree) (above : Place) (name : Bytes) : Prop
    extends store.Seat files above name where
  short : name.length ≤ maxNameLength
  noSlash : store.lockPath.beforeNul.endsWith [Ascii.slash] = false
  vacant : files.get? (above ++ [name]) = none

/-- The lock is taken, and the way to the store does not lead through it. -/
structure Taken (store : Store) (files : FileTree) (above : Place) (name target : Bytes) : Prop
    extends store.Seat files above name where
  short : name.length ≤ maxNameLength
  noSlash : store.lockPath.beforeNul.endsWith [Ascii.slash] = false
  link : files.get? (above ++ [name]) = some (.link target)
  bare : store.Seat (files.erase (above ++ [name])) above name

/-- What others do neither moves the store nor touches its lock: wherever the lock belongs it still
does, with the same entry there up to the content of a file, and without the lock this would be so
too. -/
structure Undisturbed (store : Store) (before after : FileTree) : Prop where
  there : before.isDirectory store.root = true → after.isDirectory store.root = true
  link : after.readLink? store.lockPath = before.readLink? store.lockPath
  seat : ∀ {above : Place} {name : Bytes}, store.Seat before above name →
    store.Seat after above name ∧ (after.get? (above ++ [name])).map Entry.outline =
      (before.get? (above ++ [name])).map Entry.outline
  bare : ∀ {above : Place} {name : Bytes}, store.Seat (before.erase (above ++ [name])) above name →
    store.Seat (after.erase (above ++ [name])) above name

variable {store : Store} {files later : FileTree} {above : Place} {name target : Bytes}

private theorem Seat.sameOutline (seat : store.Seat files above name)
    (alike : files.SameOutline later) : store.Seat later above name := by
  refine ⟨(alike.isDirectory_eq _).trans seat.there, (alike.spotOf_eq _).trans seat.spot, ?_⟩
  rcases alike.cases above with same | ⟨-, old, before⟩
  · exact same.trans seat.directory
  · cases seat.directory.symm.trans before

/-- What leaves every walk alone disturbs no lock. -/
theorem undisturbed_of_sameOutline (alike : files.SameOutline later) :
    store.Undisturbed files later where
  there there := (alike.isDirectory_eq _).trans there
  link := alike.readLink?_eq _
  seat seat := ⟨seat.sameOutline alike, alike.entry _⟩
  bare seat := seat.sameOutline (alike.erase _)

private theorem Vacant.undisturbed (free : store.Vacant files above name)
    (undisturbed : store.Undisturbed files later) : store.Vacant later above name := by
  obtain ⟨seat, same⟩ := undisturbed.seat free.toSeat
  refine ⟨seat, free.short, free.noSlash, ?_⟩
  rwa [free.vacant, Option.map_none, Option.map_eq_none_iff] at same

private theorem Taken.undisturbed (taken : store.Taken files above name target)
    (undisturbed : store.Undisturbed files later) : store.Taken later above name target := by
  obtain ⟨seat, same⟩ := undisturbed.seat taken.toSeat
  refine ⟨seat, taken.short, taken.noSlash, ?_, undisturbed.bare taken.bare⟩
  rw [taken.link, Option.map_some, Option.map_eq_some_iff] at same
  obtain ⟨entry, found, link⟩ := same
  cases Entry.outline_eq_link.mp link
  exact found

private theorem Vacant.readLink?_eq (free : store.Vacant files above name) :
    files.readLink? store.lockPath = none := by
  simp only [readLink?, free.spot, Spot.place, free.vacant]

private theorem Taken.readLink?_eq (taken : store.Taken files above name target) :
    files.readLink? store.lockPath = some target := by
  simp only [readLink?, taken.spot, Spot.place, taken.link, taken.noSlash]
  rfl

private theorem Vacant.makeLink_eq (free : store.Vacant files above name) {owner : Bytes}
    (fits : refusal? owner.beforeNul = none) :
    files.makeLink owner store.lockPath =
      .ok (files.put (above ++ [name]) (.link owner.beforeNul)) := by
  have looked : files.lookUp above name = .ok none := by
    rw [lookUp, if_neg (Nat.not_lt_of_le free.short), free.vacant]
  simp [makeLink, fits, free.spot, looked, free.noSlash, create, free.directory]

private theorem Taken.makeLink_eq (taken : store.Taken files above name target) {owner : Bytes}
    (fits : refusal? owner.beforeNul = none) :
    files.makeLink owner store.lockPath = .error .alreadyExists := by
  have looked : files.lookUp above name = .ok (some (.link target)) := by
    rw [lookUp, if_neg (Nat.not_lt_of_le taken.short), taken.link]
  simp only [makeLink, fits, taken.spot, looked]

private theorem Taken.remove_eq (taken : store.Taken files above name target) :
    files.remove store.lockPath = .ok (files.erase (above ++ [name])) :=
  remove_of_link taken.spot taken.short taken.link taken.noSlash

/-- A store whose lock could be made has its lock taken. -/
theorem taken_of_makeLink (there : files.isDirectory store.root = true) {owner : Bytes}
    (made : files.makeLink owner store.lockPath = .ok later) :
    ∃ above name, store.Taken later above name owner.beforeNul := by
  obtain ⟨above, name, spot, short, vacant, noSlash, rfl⟩ := makeLink_eq_ok made
  have fits : refusal? owner.beforeNul = none := by
    cases refused : refusal? owner.beforeNul with
    | none => rfl
    | some errno =>
        rw [makeLink, refused] at made
        cases made
  have directory : files.get? above = some .directory := by
    have looked : files.lookUp above name = .ok none := by
      rw [lookUp, if_neg (Nat.not_lt_of_le short), vacant]
    simp only [makeLink, fits, spot, looked, noSlash, Bool.false_eq_true, if_false] at made
    exact (create_eq_ok made).1
  have kept := files.keptIn_put_vacant (.link owner.beforeNul) vacant
  have apart : above ≠ above ++ [name] := by simp
  refine ⟨above, name, ⟨kept.isDirectory there, spotOf_keptIn kept spot, ?_⟩, short, noSlash, ?_,
    ?_⟩
  · rw [get?_put_vacant files vacant, if_neg apart, directory]
  · rw [get?_put_vacant files vacant, if_pos rfl]
  · rw [erase_put_vacant files _ vacant]
    exact ⟨there, spot, directory⟩

/-- A store whose lock is given back can be locked again. -/
theorem Taken.vacant_erase (taken : store.Taken files above name target) :
    store.Vacant (files.erase (above ++ [name])) above name :=
  ⟨taken.bare, taken.short, taken.noSlash, get?_erase_self files (by simp)⟩

/-- How far a call that takes the lock has come. -/
inductive LockCall where
  /-- About to look whether the store is there. -/
  | looking
  /-- About to make the link. -/
  | linking
  /-- The name of the link is taken; about to read who has it. -/
  | blaming
  | refused (failure : Failure)
  /-- The call returned no lock, since there is no store. -/
  | unneeded
  /-- The call returned the lock, to which there is one reference and this many more. -/
  | holding (more : Nat)
  /-- The last reference to the lock is gone. -/
  | released
  deriving DecidableEq, Repr

namespace LockCall

/-- Whether there is a lock that the call returned. -/
def isLive : LockCall → Bool
  | holding _ => true
  | _ => false

/-- What a call came to that took the lock of a store, unless it still runs or was given back. -/
def returned? (store : Store) : LockCall → Option (Except Failure (Option Bytes))
  | refused failure => some (.error failure)
  | unneeded => some (.ok none)
  | holding _ => some (.ok (some store.lockPath))
  | looking | linking | blaming | released => none

end LockCall

/-- The next system call of a call, with what the call does before the one after. -/
def advance (store : Store) : LockCall → StateM Session LockCall
  | .looking => do
    let session ← get
    pure (if session.files.isDirectory store.root then .linking else .unneeded)
  | .linking => do
    let session ← get
    match ← attempt (store.taking session) with
    | .ok () =>
      trace (ascii "locked " ++ store.lockPath.beforeNul)
      pure (.holding 0)
    | .error errno =>
      pure (if errno = .alreadyExists then .blaming
        else .refused (.inCall (ascii "symlink(" ++ store.lockPath ++ ascii ")") errno))
  | .blaming => do
    let session ← get
    pure (.refused
      (.locked store.root (ownerOf session.files store.lockPath) store.lockPath))
  | call => pure call

variable {session : Session}

private theorem advance_linking_of_made
    (made : (session.files.perform (store.taking session)).2 = .ok ()) :
    store.advance .linking session = (.holding 0, store.locked session) := by
  have result : (attempt (store.taking session) session).1 = .ok () := made
  change (match (attempt (store.taking session) session).1 with | .ok () => _ | .error _ => _ :
    StateM Session LockCall) _ = _
  rw [result]
  rfl

private theorem advance_linking_of_refused {errno : Errno}
    (refused : (session.files.perform (store.taking session)).2 = .error errno) :
    store.advance .linking session =
      (if errno = .alreadyExists then .blaming
        else .refused (.inCall (ascii "symlink(" ++ store.lockPath ++ ascii ")") errno),
        attempted session (store.taking session)) := by
  have result : (attempt (store.taking session) session).1 = .error errno := refused
  change (match (attempt (store.taking session) session).1 with | .ok () => _ | .error _ => _ :
    StateM Session LockCall) _ = _
  rw [result]
  rfl

/-- A call that nobody gets in the way of is the whole taking of the lock. -/
theorem lock_eq_advance (session : Session) :
    let finished := (store.advance .looking >>= store.advance >>= store.advance) session
    finished.1.returned? store = some (store.lock session).1 ∧
      finished.2 = (store.lock session).2 := by
  dsimp only
  rw [bind_state_apply, bind_state_apply]
  cases there : session.files.isDirectory store.root with
  | false =>
      have looked : store.advance .looking session = (.unneeded, session) := by
        change (if session.files.isDirectory store.root = true then _ else _, session) = _
        rw [if_neg (by simp [there])]
      rw [looked, lock_of_noDirectory store there]
      exact ⟨rfl, rfl⟩
  | true =>
      have looked : store.advance .looking session = (.linking, session) := by
        change (if session.files.isDirectory store.root = true then _ else _, session) = _
        rw [if_pos there]
      rw [looked]
      rcases tried : (session.files.perform (store.taking session)).2 with errno | _
      · rw [advance_linking_of_refused tried, lock_of_refused store there tried]
        by_cases nameTaken : errno = .alreadyExists
        · have alone : (attempted session (store.taking session)).files = session.files :=
            (settle_eq_error tried).2
          simp only [nameTaken, if_true]
          refine ⟨?_, rfl⟩
          change some (Except.error (Failure.locked _ (ownerOf
            (attempted session (store.taking session)).files _) _)) = _
          rw [alone]
        · simp only [nameTaken, if_false]
          exact ⟨rfl, rfl⟩
      · rw [advance_linking_of_made tried, lock_of_made store there tried]
        exact ⟨rfl, rfl⟩

/-- The files, and the calls so far that take the lock of a store. -/
structure LockWorld where
  files : FileTree
  calls : List LockCall := []
  deriving DecidableEq, Repr

/-- The locks there are. -/
def LockWorld.live (world : LockWorld) : Nat := world.calls.countP LockCall.isLive

/-- A session of a process that finds these files; the number of a process is a word. -/
structure Runs (session : Session) (files : FileTree) : Prop where
  files : session.files = files
  pid : session.pid < 2 ^ 32

/-- What can happen next: a call begins or makes its next system call, a reference to a lock is
copied or dropped, or others change the files. The last reference takes the lock with it. -/
inductive LockStep (store : Store) (world : LockWorld) : LockWorld → Prop
  | begins : LockStep store world { world with calls := world.calls ++ [.looking] }
  | advances {index : Nat} {call : LockCall} {session : Session} :
      world.calls[index]? = some call → Runs session world.files →
      LockStep store world
        ⟨(store.advance call session).2.files,
          world.calls.set index (store.advance call session).1⟩
  | shares {index more : Nat} : world.calls[index]? = some (.holding more) →
      LockStep store world { world with calls := world.calls.set index (.holding (more + 1)) }
  | drops {index more : Nat} : world.calls[index]? = some (.holding (more + 1)) →
      LockStep store world { world with calls := world.calls.set index (.holding more) }
  | releases {index : Nat} {session : Session} : world.calls[index]? = some (.holding 0) →
      Runs session world.files →
      LockStep store world
        ⟨(release store.lockPath session).2.files, world.calls.set index .released⟩
  | others {files : FileTree} : store.Undisturbed world.files files →
      LockStep store world { world with files }

/-- The lock has been taken before: it is gone and can be taken again, or there is one owner. -/
inductive Settled (store : Store) (world : LockWorld) : Prop
  | vacant {above : Place} {name : Bytes} : world.live = 0 →
      store.Vacant world.files above name → Settled store world
  | taken {above : Place} {name target : Bytes} : world.live = 1 →
      store.Taken world.files above name target → Settled store world

/-- The lock has never been taken. -/
structure Untaken (store : Store) (world : LockWorld) : Prop where
  live : world.live = 0
  there : world.files.isDirectory store.root = true
  absent : world.files.readLink? store.lockPath = none

variable {world next : LockWorld} {calls : List LockCall} {index : Nat} {call other : LockCall}

private theorem countP_set_live (found : calls[index]? = some call) :
    (calls.set index other).countP LockCall.isLive =
      calls.countP LockCall.isLive - (if call.isLive then 1 else 0) +
        if other.isLive then 1 else 0 := by
  obtain ⟨inside, rfl⟩ := List.getElem?_eq_some_iff.mp found
  exact List.countP_set inside

private theorem live_pos (found : calls[index]? = some call) (live : call.isLive = true) :
    0 < calls.countP LockCall.isLive :=
  List.countP_pos_iff.mpr ⟨call, List.mem_of_getElem? found, live⟩

private theorem beforeNul_ofNat (pid : Nat) : (Decimal.ofNat pid).beforeNul = Decimal.ofNat pid :=
    by
  apply Bytes.beforeNul_of_notMem
  intro member
  have digit := (Decimal.denotes_ofNat pid).digits 0 member
  rw [Decimal.isDigit_iff] at digit
  exact absurd digit.1 (by decide)

private theorem refusal?_ofNat {pid : Nat} (word : pid < 2 ^ 32) :
    refusal? (Decimal.ofNat pid).beforeNul = none := by
  have short : (Decimal.ofNat pid).length ≤ 10 := by
    rw [Decimal.ofNat, List.length_map]
    exact Nat.toDigits_length 10 pid 10 (by omega) (by omega)
  have nonempty : (Decimal.ofNat pid).isEmpty = false := by
    simpa using (Decimal.denotes_ofNat pid).nonempty
  have fits : ¬ (Decimal.ofNat pid).length ≥ maxPathLength := by
    rw [maxPathLength]
    omega
  rw [beforeNul_ofNat, refusal?, nonempty, if_neg Bool.false_ne_true, if_neg fits]

/-- Whoever tries to make the link finds it taken while somebody has it. -/
theorem Taken.perform_eq (taken : store.Taken files above name target)
    (runs : Runs session files) :
    session.files.perform (store.taking session) = (session.files, .error .alreadyExists) := by
  have refused := taken.makeLink_eq (refusal?_ofNat runs.pid)
  rw [← runs.files] at refused
  rw [taking, FileTree.perform, refused]
  rfl

/-- A call that stays what it was, with or without a lock, changes no count of locks. -/
theorem countP_set_of_eq (found : calls[index]? = some call) (same : other.isLive = call.isLive) :
    (calls.set index other).countP LockCall.isLive = calls.countP LockCall.isLive := by
  rw [countP_set_live found, same]
  cases live : call.isLive with
  | false => rfl
  | true => exact Nat.sub_add_cancel (live_pos found live)

private theorem undisturbed_refl (store : Store) (files : FileTree) : store.Undisturbed files files
    :=
  undisturbed_of_sameOutline ((KeptIn.refl files).sameOutline fun _ => id)

/-- A system call of a call either makes the link, or changes no file and neither gives nor takes a
lock. -/
theorem advance_cases (store : Store) (call : LockCall) (session : Session) :
    (call = .linking ∧ (session.files.perform (store.taking session)).2 = .ok () ∧
        store.advance call session = (.holding 0, store.locked session)) ∨
      (store.advance call session).2.files = session.files ∧
        (store.advance call session).1.isLive = call.isLive := by
  cases call with
  | linking =>
      rcases tried : (session.files.perform (store.taking session)).2 with errno | _
      · refine .inr ?_
        rw [advance_linking_of_refused tried]
        refine ⟨(settle_eq_error tried).2, ?_⟩
        by_cases nameTaken : errno = .alreadyExists
        · simp only [nameTaken, if_true]
          rfl
        · simp only [nameTaken, if_false]
          rfl
      · exact .inl ⟨rfl, rfl, advance_linking_of_made tried⟩
  | looking =>
      refine .inr ⟨rfl, ?_⟩
      change (if session.files.isDirectory store.root = true then LockCall.linking
        else .unneeded).isLive = _
      split <;> rfl
  | blaming | refused _ | unneeded | holding _ | released => exact .inr ⟨rfl, rfl⟩

/-- All that a step can do: nothing to the lock, make it, or give it back. -/
theorem lockStep_cases (step : store.LockStep world next) :
    (next.live = world.live ∧ store.Undisturbed world.files next.files) ∨
      (∃ session, Runs session world.files ∧ next.live = world.live + 1 ∧
        (session.files.perform (store.taking session)).2 = .ok () ∧
        next.files = (store.locked session).files) ∨
      ∃ session, Runs session world.files ∧ 0 < world.live ∧ next.live = world.live - 1 ∧
        next.files = (release store.lockPath session).2.files := by
  cases step with
  | begins =>
      refine .inl ⟨?_, undisturbed_refl store _⟩
      simp [LockWorld.live, LockCall.isLive]
  | @advances index call session found runs =>
      rcases advance_cases store call session with ⟨rfl, made, result⟩ | ⟨sameFiles, sameLive⟩
      · rw [result]
        exact .inr (.inl ⟨session, runs, countP_set_live found, made, rfl⟩)
      · refine .inl ⟨countP_set_of_eq found sameLive, ?_⟩
        rw [sameFiles, runs.files]
        exact undisturbed_refl store _
  | shares found | drops found =>
      exact .inl ⟨countP_set_of_eq found rfl, undisturbed_refl store _⟩
  | @releases index session found runs =>
      exact .inr (.inr ⟨session, runs, live_pos found rfl, countP_set_live found, rfl⟩)
  | others undisturbed => exact .inl ⟨rfl, undisturbed⟩

/-- Whoever makes the link has the lock. -/
theorem taken_locked (there : session.files.isDirectory store.root = true)
    (made : (session.files.perform (store.taking session)).2 = .ok ()) :
    ∃ above name,
      store.Taken (store.locked session).files above name (Decimal.ofNat session.pid) := by
  obtain ⟨above, name, taken⟩ := taken_of_makeLink there (settle_eq_ok made)
  rw [beforeNul_ofNat] at taken
  exact ⟨above, name, taken.undisturbed
    (undisturbed_of_sameOutline (session.journal.sameOutline_write _ _ _))⟩

/-- Whoever has the lock and gives it back removes the link. -/
theorem Taken.vacant_release (taken : store.Taken files above name target)
    (runs : Runs session files) :
    store.Vacant (release store.lockPath session).2.files above name := by
  have removed := taken.remove_eq
  rw [← runs.files] at removed
  have performed : session.files.perform (.remove store.lockPath) =
      (session.files.erase (above ++ [name]), .ok ()) := by
    rw [FileTree.perform, removed]
    rfl
  have given : (release store.lockPath session).2.files = files.erase (above ++ [name]) := by
    rw [release_of_removed (congrArg Prod.snd performed)]
    exact (congrArg Prod.fst performed).trans (congrArg (FileTree.erase · _) runs.files)
  rw [given]
  exact taken.vacant_erase

private theorem Settled.step (settled : store.Settled world) (step : store.LockStep world next) :
    store.Settled next := by
  rcases lockStep_cases step with ⟨sameLive, undisturbed⟩ |
    ⟨session, runs, more, made, files⟩ | ⟨session, runs, owned, less, files⟩
  · cases settled with
    | vacant live free => exact .vacant (sameLive.trans live) (free.undisturbed undisturbed)
    | taken live taken => exact .taken (sameLive.trans live) (taken.undisturbed undisturbed)
  · cases settled with
    | vacant live free =>
        have there : session.files.isDirectory store.root = true := runs.files ▸ free.there
        obtain ⟨above, name, taken⟩ := taken_locked there made
        exact .taken (by omega) (files ▸ taken)
    | taken live taken =>
        rw [taken.perform_eq runs] at made
        cases made
  · cases settled with
    | vacant live _ => omega
    | taken live taken => exact .vacant (by omega) (files ▸ taken.vacant_release runs)

private theorem Untaken.step (untaken : store.Untaken world) (step : store.LockStep world next) :
    store.Untaken next ∨ store.Settled next := by
  rcases lockStep_cases step with ⟨sameLive, undisturbed⟩ |
    ⟨session, runs, more, made, files⟩ | ⟨session, runs, owned, -, -⟩
  · exact .inl ⟨sameLive.trans untaken.live, undisturbed.there untaken.there,
      undisturbed.link.trans untaken.absent⟩
  · have there : session.files.isDirectory store.root = true := runs.files ▸ untaken.there
    obtain ⟨above, name, taken⟩ := taken_locked there made
    have live := untaken.live
    exact .inr (.taken (by omega) (files ▸ taken))
  · have live := untaken.live
    omega

open Relation (ReflTransGen)

private theorem Settled.reaches (settled : store.Settled world)
    (reaches : ReflTransGen store.LockStep world next) : store.Settled next := by
  induction reaches with
  | refl => exact settled
  | tail _ step ih => exact ih.step step

private theorem Untaken.reaches (untaken : store.Untaken world)
    (reaches : ReflTransGen store.LockStep world next) :
    store.Untaken next ∨ store.Settled next := by
  induction reaches with
  | refl => exact .inl untaken
  | tail _ step ih =>
      rcases ih with untaken | settled
      · exact untaken.step step
      · exact .inr (settled.step step)

private theorem Vacant.lock_eq (free : store.Vacant files above name) (runs : Runs session files) :
    (store.lock session).1 = .ok (some store.lockPath) ∧
      (store.lock session).2.files.readLink? store.lockPath = some (Decimal.ofNat session.pid) := by
  have there : session.files.isDirectory store.root = true := runs.files ▸ free.there
  have made : (session.files.perform (store.taking session)).2 = .ok () := by
    have happens := free.makeLink_eq (refusal?_ofNat runs.pid)
    rw [← runs.files] at happens
    rw [taking, FileTree.perform, happens]
    rfl
  rw [lock_of_made store there made]
  obtain ⟨_, _, taken⟩ := taken_locked there made
  exact ⟨rfl, taken.readLink?_eq⟩

private theorem Taken.lock_eq (taken : store.Taken files above name target)
    (runs : Runs session files) : store.lock session =
      (.error (.locked store.root (ownerOf files store.lockPath) store.lockPath),
        attempted session (store.taking session)) ∧
      (attempted session (store.taking session)).files = files := by
  have refused := taken.perform_eq runs
  have there : session.files.isDirectory store.root = true := runs.files ▸ taken.there
  constructor
  · rw [lock_of_refused store there (congrArg Prod.snd refused), if_pos rfl, runs.files]
  · exact (congrArg Prod.fst refused).trans runs.files

/-- **The lock of a store excludes.** In a store that is there and not locked, whatever happens
and in whatever order, there is at most one lock, and the link is there if and only if one is. While
there is one, taking the lock fails, says so and leaves the files alone; a call that is about to
make the link fails the same way, and none that is under way changes a file or gets a lock. Once the
last reference is gone and no other call was faster, the lock can be taken and names the process
that has it. -/
theorem lock_excludes {start reached : LockWorld}
    (there : start.files.isDirectory store.root = true)
    (absent : start.files.readLink? store.lockPath = none) (idle : start.live = 0)
    (reaches : ReflTransGen store.LockStep start reached) :
    reached.live ≤ 1 ∧
      ((reached.files.readLink? store.lockPath).isSome = true ↔ reached.live = 1) ∧
      (reached.live = 1 → ∀ session, Runs session reached.files →
        (store.lock session).1 =
            .error (.locked store.root (ownerOf reached.files store.lockPath) store.lockPath) ∧
          (store.lock session).2.files = reached.files ∧
          (store.advance .linking session).1 = .blaming ∧
          ∀ call, (store.advance call session).2.files = reached.files ∧
            (store.advance call session).1.isLive = call.isLive) ∧
      (reached.live = 1 → ∀ later, ReflTransGen store.LockStep reached later → later.live = 0 →
        ∀ session, Runs session later.files →
          (store.lock session).1 = .ok (some store.lockPath) ∧
            (store.lock session).2.files.readLink? store.lockPath =
              some (Decimal.ofNat session.pid)) := by
  rcases Untaken.reaches ⟨idle, there, absent⟩ reaches with untaken | settled
  · have live := untaken.live
    refine ⟨by omega, ?_, fun one => by omega, fun one => by omega⟩
    rw [untaken.absent, live]
    simp
  refine ⟨?_, ?_, ?_, ?_⟩
  · cases settled <;> omega
  · cases settled with
    | vacant live free =>
        rw [free.readLink?_eq, live]
        simp
    | taken live taken =>
        rw [taken.readLink?_eq, live]
        simp
  · intro one session runs
    cases settled with
    | vacant live _ => omega
    | taken _ taken =>
        obtain ⟨refused, sameFiles⟩ := taken.lock_eq runs
        refine ⟨congrArg Prod.fst refused, (congrArg (·.2.files) refused).trans sameFiles, ?_, ?_⟩
        · rw [advance_linking_of_refused (congrArg Prod.snd (taken.perform_eq runs))]
          rfl
        intro call
        rcases advance_cases store call session with ⟨-, made, -⟩ | ⟨alone, sameLive⟩
        · rw [taken.perform_eq runs] at made
          cases made
        · exact ⟨alone.trans runs.files, sameLive⟩
  · intro one later onward gone session runs
    cases settled.reaches onward with
    | vacant _ free => exact free.lock_eq runs
    | taken live _ => omega

/-- What happens when a call makes its next system call in a process. -/
def LockWorld.advanced (store : Store) (world : LockWorld) (index pid : Nat) : LockWorld :=
  match world.calls[index]? with
  | none => world
  | some call =>
    let (next, after) := store.advance call { files := world.files, pid }
    ⟨after.files, world.calls.set index next⟩

private theorem reaches_advanced (store : Store) (world : LockWorld) (index : Nat) {pid : Nat}
    (word : pid < 2 ^ 32) : ReflTransGen store.LockStep world (world.advanced store index pid) := by
  unfold LockWorld.advanced
  cases found : world.calls[index]? with
  | none => exact .refl
  | some call => exact .single (.advances found ⟨rfl, word⟩)

/-- A store with nothing in it. -/
def bareStore : FileTree := { entries := [([ascii "lfs"], .directory)] }

/-- Both of two calls find the store, one makes the link, and the other one is refused. -/
def contended : LockWorld where
  files := bareStore.put [ascii "lfs", ascii "fsck.lock"] (.link (ascii "7"))
  calls := [.refused (.locked (ascii "lfs") (ascii "7") (ascii "lfs/fsck.lock")), .holding 0]

private theorem reaches_contended : ReflTransGen (LockStep ⟨ascii "lfs"⟩) ⟨bareStore, []⟩ contended
    := by
  have begun : ReflTransGen (LockStep ⟨ascii "lfs"⟩) ⟨bareStore, []⟩
      ⟨bareStore, [.looking, .looking]⟩ := .tail (.single .begins) .begins
  have order : contended = [(0, 8), (1, 7), (1, 7), (0, 8), (0, 8)].foldl
      (fun (world : LockWorld) (turn : Nat × Nat) =>
        world.advanced ⟨ascii "lfs"⟩ turn.1 turn.2)
      ⟨bareStore, [.looking, .looking]⟩ := by decide +kernel
  rw [order]
  apply begun.trans
  apply (reaches_advanced _ _ 0 (by omega : 8 < 2 ^ 32)).trans
  apply (reaches_advanced _ _ 1 (by omega : 7 < 2 ^ 32)).trans
  apply (reaches_advanced _ _ 1 (by omega : 7 < 2 ^ 32)).trans
  apply (reaches_advanced _ _ 0 (by omega : 8 < 2 ^ 32)).trans
  exact reaches_advanced _ _ 0 (by omega : 8 < 2 ^ 32)

/-- Of two calls one is refused, and so is a third one, until the process that they name gives the
lock back. -/
theorem lock_excludes_of_two_calls :
    (Store.lock ⟨ascii "lfs"⟩ { files := contended.files, pid := 9 }).1 =
        .error (.locked (ascii "lfs") (ascii "7") (ascii "lfs/fsck.lock")) ∧
      (Store.lock ⟨ascii "lfs"⟩ { files := bareStore, pid := 9 }).1 =
        .ok (some (ascii "lfs/fsck.lock")) := by
  have idle : (⟨bareStore, []⟩ : LockWorld).live = 0 := rfl
  have owned : contended.live = 1 := rfl
  have given : (release (ascii "lfs/fsck.lock") { files := contended.files }).2.files =
      bareStore := by decide +kernel
  have gone := @LockStep.releases ⟨ascii "lfs"⟩ contended 1 { files := contended.files } rfl
    ⟨rfl, by simp⟩
  obtain ⟨-, -, refused, again⟩ := lock_excludes (by decide +kernel) (by decide +kernel) idle
    reaches_contended
  constructor
  · exact (refused owned _ ⟨rfl, by simp⟩).1
  · exact (again owned _ (.single gone) rfl _ ⟨given.symm, by simp⟩).1

end Store

end StoreAudit
