import StoreAudit.Proofs.Check.Frame

/-!
# What a check does under its lock

A run is guarded if every change that is not refused, but those of its lock, comes between taking
the lock and giving it back. A repairing check is guarded as long as there is a store to lock; one
that finds no directory for its store takes no lock, and still repairs if it misses an object,
unless it is refused a directory for the repair (`Store.check_guarded_iff`).
-/

namespace StoreAudit.Store

open Audit

variable (store : Store)

/-- Changes that a run attempted from some files on, whether it holds the lock after them, and the
files it leaves: while it does not hold the lock, only taking it succeeds. -/
inductive Guarded (journal : Journal) (pid : Nat) (files : FileTree) :
    List Change → Bool → FileTree → Prop
  | start : Guarded journal pid files [] false files
  | record {made : List Change} {held : Bool} {later : FileTree} (level : Int) (text : Bytes) :
      Guarded journal pid files made held later →
      Guarded journal pid files made held (journal.write later level text)
  | take {made : List Change} {later locked : FileTree} :
      Guarded journal pid files made false later →
      later.makeLink (Decimal.ofNat pid) store.lockPath = .ok locked →
      Guarded journal pid files (made ++ [.makeLink (Decimal.ofNat pid) store.lockPath]) true locked
  | refused {made : List Change} {later : FileTree} {change : Change} {errno : Errno} :
      Guarded journal pid files made false later → later.perform change = (later, .error errno) →
      Guarded journal pid files (made ++ [change]) false later
  | change {made : List Change} {later : FileTree} {change : Change} :
      Guarded journal pid files made true later → change ≠ .remove store.lockPath →
      Guarded journal pid files (made ++ [change]) true (later.perform change).1
  | giveBack {made : List Change} {later : FileTree} :
      Guarded journal pid files made true later →
      Guarded journal pid files (made ++ [.remove store.lockPath]) false
        (later.perform (.remove store.lockPath)).1

/-- The first guarded change takes the lock or is refused. -/
theorem Guarded.head? {store : Store} {journal : Journal} {pid : Nat} {files later : FileTree}
    {made : List Change} {held : Bool} (guarded : store.Guarded journal pid files made held later) :
    (made = [] → held = false ∧ ∃ events, later = journal.writeAll files events) ∧
      ∀ first, made.head? = some first → first = .makeLink (Decimal.ofNat pid) store.lockPath ∨
        ∃ events errno, (journal.writeAll files events).perform first =
          (journal.writeAll files events, .error errno) := by
  have next {made : List Change} {change first : Change}
      (found : (made ++ [change]).head? = some first) :
      made = [] ∧ change = first ∨ made.head? = some first := by
    cases made with
    | nil => exact .inl ⟨rfl, Option.some.inj found⟩
    | cons other rest => exact .inr found
  induction guarded with
  | start => exact ⟨fun _ => ⟨rfl, [], rfl⟩, fun first found => nomatch found⟩
  | record level text _ ih =>
      refine ⟨fun empty => ?_, ih.2⟩
      obtain ⟨free, events, rfl⟩ := ih.1 empty
      refine ⟨free, events ++ [(level, text)], ?_⟩
      rw [journal.writeAll_append]
      rfl
  | take _ _ ih =>
      refine ⟨by simp, fun first found => ?_⟩
      rcases next found with ⟨-, rfl⟩ | earlier
      · exact .inl rfl
      · exact ih.2 first earlier
  | refused _ alone ih =>
      refine ⟨by simp, fun first found => ?_⟩
      rcases next found with ⟨empty, rfl⟩ | earlier
      · obtain ⟨-, events, rfl⟩ := ih.1 empty
        exact .inr ⟨events, _, alone⟩
      · exact ih.2 first earlier
  | change _ _ ih =>
      refine ⟨by simp, fun first found => ?_⟩
      rcases next found with ⟨empty, rfl⟩ | earlier
      · cases (ih.1 empty).1
      · exact ih.2 first earlier
  | giveBack _ ih =>
      refine ⟨by simp, fun first found => ?_⟩
      rcases next found with ⟨empty, rfl⟩ | earlier
      · cases (ih.1 empty).1
      · exact ih.2 first earlier

/-- A run that started in one session and is in another by now is guarded so far. -/
structure Guards (before : Session) (held : Bool) (after : Session) : Prop where
  journal : after.journal = before.journal
  pid : after.pid = before.pid
  changes : ∃ made, after.changes = before.changes ++ made ∧
    store.Guarded before.journal before.pid before.files made held after.files

namespace Guards

variable {store} {session middle after : Session} {held : Bool}

private theorem start (session : Session) : store.Guards session false session :=
  ⟨rfl, rfl, [], (List.append_nil _).symm, .start⟩

private theorem spares (guards : store.Guards session held middle) (spares : middle.Spares after) :
    store.Guards session held after := by
  obtain ⟨made, changes, guarded⟩ := guards.changes
  obtain ⟨events, files⟩ := spares.files
  refine ⟨spares.journal.trans guards.journal, spares.pid.trans guards.pid, made,
    spares.changes.trans changes, ?_⟩
  rw [files, guards.journal]
  clear files spares changes
  generalize middle.files = reached at guarded
  induction events generalizing reached with
  | nil => exact guarded
  | cons event rest ih => exact ih _ (guarded.record event.1 event.2)

private theorem log (guards : store.Guards session held middle) (level : Int) (line : Bytes) :
    store.Guards session held (Audit.log level line middle).2 :=
  guards.spares ⟨rfl, rfl, rfl, [(level, line ++ [Ascii.newline])], rfl⟩

private theorem append {made : List Change} {next : Change} {held : Bool}
    (changes : middle.changes = session.changes ++ made)
    (guards : store.Guards session held middle) {later : Bool}
    (guarded : store.Guarded session.journal session.pid session.files (made ++ [next]) later
      (middle.files.perform next).1) :
    store.Guards session later (attempted middle next) :=
  ⟨guards.journal, guards.pid, made ++ [next], by
    change middle.changes ++ [next] = _
    rw [changes, List.append_assoc], guarded⟩

private theorem attempt (guards : store.Guards session true middle) {change : Change}
    (other : change ≠ .remove store.lockPath) :
    store.Guards session true (attempted middle change) := by
  obtain ⟨made, changes, guarded⟩ := guards.changes
  exact guards.append changes (guarded.change other)

private theorem giveBack (guards : store.Guards session true middle) :
    store.Guards session false (attempted middle (.remove store.lockPath)) := by
  obtain ⟨made, changes, guarded⟩ := guards.changes
  exact guards.append changes guarded.giveBack

private theorem take (guards : store.Guards session false middle)
    (made : (middle.files.perform (store.taking middle)).2 = .ok ()) :
    store.Guards session true (attempted middle (store.taking middle)) := by
  obtain ⟨changes, same, guarded⟩ := guards.changes
  have taking : store.taking middle = .makeLink (Decimal.ofNat session.pid) store.lockPath := by
    rw [taking, guards.pid]
  rw [taking] at made ⊢
  exact guards.append same (guarded.take (settle_eq_ok made))

private theorem refused (guards : store.Guards session false middle) {change : Change}
    {errno : Errno} (alone : middle.files.perform change = (middle.files, .error errno)) :
    store.Guards session false (attempted middle change) := by
  obtain ⟨made, changes, guarded⟩ := guards.changes
  refine guards.append changes ?_
  rw [alone]
  exact guarded.refused alone

end Guards

/-- A step between the two sessions keeps a run guarded that holds the lock. -/
def Shields (session before after : Session) : Prop :=
  store.Guards session true before → store.Guards session true after

instance (session : Session) : IsPreorder Session (store.Shields session) where
  refl _ := id
  trans _ _ _ first second := second ∘ first

private theorem kept_shields (session : Session) :
    Kept (store.Shields session) fun change => change ≠ .remove store.lockPath :=
  ⟨fun level line _ guards => guards.log level line, fun _ _ other guards => guards.attempt other⟩

private theorem within_shields_repairAndNote (session : Session) :
    Within (store.Shields session) store.repairAndNote := by
  have repair : Within (store.Shields session) store.repair := by
    intro before guards
    have moves : Within (store.Shields session) (store.moveAll before.report.corrupt) :=
      (store.kept_shields session).moveAll (fun impossible => nomatch impossible)
        (fun _ _ _ impossible => nomatch impossible) _
    rw [repair_apply]
    refine moves _ (guards.spares ?_)
    exact ⟨rfl, rfl, rfl, before.sees_self⟩
  refine .bind repair fun moved => ?_
  exact .bind (Within.lift fun before guards => guards.log _ _) fun _ => within_pure _

private theorem guards_release {session middle : Session}
    (guards : store.Guards session true middle) :
    store.Guards session false (release store.lockPath middle).2 := by
  rcases result : (middle.files.perform (.remove store.lockPath)).2 with errno | _
  · rw [release_of_refused result]
    exact guards.giveBack.log _ _
  · rw [release_of_removed result]
    exact guards.giveBack

/-- Whether the directory for a repair can neither be made nor found, without a trace of trying. -/
def RefusesQuarantine (files : FileTree) : Prop :=
  ∃ errno, files.makeDirectories store.quarantine = (files, .error errno)

private theorem refusesQuarantine_of_sees {store : Store} {session : Session} {files : FileTree}
    (sees : session.Sees files) :
    store.RefusesQuarantine files ↔ store.RefusesQuarantine session.files := by
  obtain ⟨events, rfl⟩ := sees
  exact exists_congr fun errno => session.journal.makeDirectories_refused_writeAll

/-- A repair whose directory is refused attempts nothing else. -/
theorem repairAndNote_of_refused {session : Session}
    (refuses : store.RefusesQuarantine session.files) :
    ∃ errno, session.files.perform (.makeDirectories store.quarantine) =
        (session.files, .error errno) ∧
      (store.repairAndNote session).2 =
        attempted (store.announced session) (.makeDirectories store.quarantine) := by
  obtain ⟨errno, refused⟩ := refuses
  refine ⟨errno, refused, ?_⟩
  have performed : (store.announced session).files.perform (.makeDirectories store.quarantine) =
      (session.files, .error errno) := refused
  have ended : store.repair session =
      (.error (.inCall (ascii "mkdir(" ++ store.quarantine ++ ascii ")") errno),
        attempted (store.announced session) (.makeDirectories store.quarantine)) := by
    rw [repair_apply, moveAll, bind_apply, change_apply, performed]
  rw [repairAndNote, bind_apply_of_error ended]

private theorem checkBy_guards (options : CheckOptions) (source : ScanSource) {objects : Audit Unit}
    (within : Within Session.Observes (Store.passes options source objects)) (session : Session)
    (shielded : session.files.isDirectory store.root = true ∨
      (∀ reached, ¬ ReachesRepair options (Store.passes options source objects) session reached) ∨
        store.RefusesQuarantine session.files) :
    ∃ held, store.Guards session held (store.checkBy options source objects session).2 := by
  let passes := Store.passes options source objects
  have idle (wanted : ∀ reached, ¬ ReachesRepair options passes session reached) :
      store.Guards session false (store.concludeAfter options passes session).2 :=
    (Guards.start session).spares (store.concludeAfter_spares within wanted)
  have enters := store.checkBy_enters options source objects session
  generalize store.checkBy options source objects session = result at enters ⊢
  cases enters with
  | dryRun dry =>
      refine ⟨false, idle fun reached repairs => ?_⟩
      obtain ⟨wanted, -⟩ := repairs
      rw [dry] at wanted
      cases wanted
  | noStore dry absent =>
      refine ⟨false, ?_⟩
      by_cases wanted : ∀ reached, ¬ ReachesRepair options passes session reached
      · exact idle wanted
      obtain ⟨reached, repairs⟩ := not_forall_not.mp wanted
      have refuses := (shielded.resolve_left (by simp [absent])).resolve_left wanted
      obtain ⟨spares, same⟩ := store.concludeAfter_of_repair within repairs
      obtain ⟨errno, alone, ended⟩ := store.repairAndNote_of_refused
        ((refusesQuarantine_of_sees spares.files).mpr refuses)
      have begun : store.Guards session false (store.announced reached) :=
        ((Guards.start session).spares spares).spares ⟨rfl, rfl, rfl, reached.sees_self⟩
      rw [same, ended]
      exact begun.refused alone
  | refused dry there alone => exact ⟨false, (Guards.start session).refused alone⟩
  | locked dry there taken =>
      have begun : store.Guards session true (store.locked session) :=
        ((Guards.start session).take taken).log _ _
      refine ⟨false, store.guards_release ?_⟩
      by_cases wanted : ∀ reached, ¬ ReachesRepair options passes (store.locked session) reached
      · exact begun.spares (store.concludeAfter_spares within wanted)
      · obtain ⟨reached, repairs⟩ := not_forall_not.mp wanted
        obtain ⟨spares, same⟩ := store.concludeAfter_of_repair within repairs
        rw [same]
        exact store.within_shields_repairAndNote session reached (begun.spares spares)

private theorem not_guards_checkBy (options : CheckOptions) (source : ScanSource)
    {objects : Audit Unit} (within : Within Session.Observes (Store.passes options source objects))
    {session reached : Session} (absent : session.files.isDirectory store.root = false)
    (repairs : ReachesRepair options (Store.passes options source objects) session reached)
    (makes : ¬ store.RefusesQuarantine session.files) (held : Bool) :
    ¬ store.Guards session held (store.checkBy options source objects session).2 := by
  intro guards
  obtain ⟨spares, same⟩ := store.concludeAfter_of_repair within repairs
  obtain ⟨-, kept⟩ := store.repairAndNote_keeps reached
  obtain ⟨rest, attempts⟩ := store.changes_repair reached
  obtain ⟨made, changes, guarded⟩ := guards.changes
  have course : store.checkBy options source objects session = store.repairAndNote reached := by
    rw [checkBy, repairs.1, if_neg Bool.false_ne_true, holdingLock_apply,
      store.lock_of_noDirectory absent]
    exact same
  rw [course, kept, attempts, spares.changes] at changes
  have first : made = .makeDirectories store.quarantine :: rest :=
    (List.append_cancel_left changes).symm
  rcases guarded.head?.2 (.makeDirectories store.quarantine) (by rw [first]; rfl) with
    takes | ⟨events, errno, refused⟩
  · cases takes
  · exact makes ((refusesQuarantine_of_sees ⟨events, rfl⟩).mp ⟨errno, refused⟩)

/-- **When a check is guarded**: exactly if there is a directory to lock, or nothing to be moved is
reported by passes that come to their end, or the repair is refused its directory. -/
theorem check_guarded_iff (options : CheckOptions) (source : ScanSource) (session : Session) :
    (∀ schedule,
      (∃ held, store.Guards session held
        (store.checkFollowing options source schedule session).2) ↔
      session.files.isDirectory store.root = true ∨
        (∀ reached, ¬ ReachesRepair options (store.passesFollowing options source schedule) session
          reached) ∨
        store.RefusesQuarantine session.files) ∧
    ∃ schedule, store.check options source session =
      store.checkFollowing options source schedule session := by
  refine ⟨fun schedule => ?_, store.check_eq_checkFollowing options source session⟩
  have within := store.within_passesFollowing options source schedule
  constructor
  · rintro ⟨held, guards⟩
    by_cases there : session.files.isDirectory store.root = true
    · exact .inl there
    by_cases refuses : store.RefusesQuarantine session.files
    · exact .inr (.inr refuses)
    · refine .inr (.inl fun reached repairs => ?_)
      exact store.not_guards_checkBy options source within (by simpa using there) repairs refuses
        held guards
  · exact store.checkBy_guards options source within session

/-- A check of a store that is not there makes the directory for the object it misses, and thereby
the store, without a lock. -/
theorem check_repairs_absent_store_unguarded :
    let store : Store := ⟨ascii "s"⟩
    let missing : FoundPointer := { oid := List.replicate 64 Ascii.zero, size := 5 }
    let source : ScanSource := ⟨[.listed [.pointer missing] none], []⟩
    let after := (store.check {} source {}).2
    after.files.isDirectory store.quarantine = true ∧ ¬ ∃ held, store.Guards {} held after := by
  intro store missing source after
  have made : after.files.isDirectory store.quarantine = true ∧
      after.changes.head? = some (.makeDirectories store.quarantine) := by
    decide +kernel
  refine ⟨made.1, ?_⟩
  rintro ⟨held, guards⟩
  obtain ⟨changes, same, guarded⟩ := guards.changes
  have first := made.2
  rw [same, List.nil_append] at first
  rcases guarded.head?.2 _ first with takes | ⟨events, errno, refused⟩
  · cases takes
  · rw [Journal.writeAll_of_noFile (by simp)] at refused
    have succeeds : (({} : FileTree).makeDirectories store.quarantine).2 = .ok () := by decide
    cases succeeds.symm.trans (congrArg Prod.snd refused)

end StoreAudit.Store
