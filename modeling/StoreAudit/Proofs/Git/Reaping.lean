import StoreAudit.Proofs.Git.Endings
import StoreAudit.Proofs.Session.Triples

/-!
# Children that are waited for

A session knows of each child, once it was waited for, how it ended. Of the children that were
started after some moment, those at certain places are still to be waited for, and all others have
ended well (`Session.Awaits`). Starting a child adds its place, and waiting for it, which fails if
it ended badly, takes its place away.
-/

namespace StoreAudit

open Audit

/-- Of the children started after those of the base, all have ended well but those at the places
that are awaited. -/
structure Session.Awaits (base : List (Option Int)) (places : List Nat) (session : Session) :
    Prop where
  earlier : base <+: session.children
  later : ∀ place ∈ places, base.length ≤ place ∧ place < session.children.length
  ended : ∀ place status, base.length ≤ place → session.children[place]? = some status →
    place ∈ places ∨ status = some 0

/-- The later session knows the same of the same children. -/
def Session.SameChildren (before after : Session) : Prop := after.children = before.children

instance : IsPreorder Session Session.SameChildren where
  refl _ := rfl
  trans _ _ _ first second := second.trans first

namespace Session

variable {base : List (Option Int)} {places : List Nat} {session after : Session}

/-- At the start nobody is waited for. -/
theorem awaits_self (session : Session) : session.Awaits session.children [] := by
  refine ⟨List.prefix_rfl, fun _ impossible => absurd impossible List.not_mem_nil, ?_⟩
  intro place status beyond found
  rw [List.getElem?_eq_none beyond] at found
  cases found

/-- What leaves the children alone leaves those to wait for. -/
theorem Awaits.of_sameChildren (awaits : session.Awaits base places)
    (same : session.SameChildren after) : after.Awaits base places := by
  obtain ⟨first, later, ended⟩ := awaits
  rw [← same] at first later ended
  exact ⟨first, later, ended⟩

/-- A child that has ended well is not awaited any more. -/
theorem Awaits.settle {place : Nat} (awaits : session.Awaits base (place :: places)) :
    Awaits base places { session with children := session.children.set place (some 0) } := by
  obtain ⟨beyond, inside⟩ := awaits.later place List.mem_cons_self
  refine ⟨?_, ?_, ?_⟩
  · obtain ⟨rest, whole⟩ := awaits.earlier
    change base <+: session.children.set place (some 0)
    rw [← whole, List.set_append_right _ _ beyond]
    exact List.prefix_append _ _
  · intro other member
    rw [List.length_set]
    exact awaits.later other (List.mem_cons_of_mem _ member)
  · intro other status after found
    by_cases same : other = place
    · subst same
      rw [List.getElem?_set_self inside] at found
      exact .inr (Option.some.inj found).symm
    · rw [List.getElem?_set_ne (Ne.symm same)] at found
      refine (awaits.ended other status after found).imp_left fun member => ?_
      exact (List.mem_cons.mp member).resolve_left same

/-- The order of the places does not matter. -/
theorem Awaits.of_mem_iff {others : List Nat} (awaits : session.Awaits base places)
    (same : ∀ place, place ∈ others ↔ place ∈ places) : session.Awaits base others := by
  refine ⟨awaits.earlier, fun place member => awaits.later place ((same place).mp member), ?_⟩
  intro place status beyond found
  rw [same]
  exact awaits.ended place status beyond found

/-- Once nothing is awaited, all that were started have ended well. -/
theorem Awaits.children (awaits : session.Awaits base []) :
    ∃ ended, session.children = base ++ ended ∧ ∀ status ∈ ended, status = some 0 := by
  obtain ⟨ended, whole⟩ := awaits.earlier
  refine ⟨ended, whole.symm, fun status member => ?_⟩
  obtain ⟨index, found⟩ := List.mem_iff_getElem?.mp member
  have there : session.children[base.length + index]? = some status := by
    rw [← whole, List.getElem?_append_right (Nat.le_add_right _ _), Nat.add_sub_cancel_left]
    exact found
  exact (awaits.ended _ status (Nat.le_add_right _ _) there).resolve_left List.not_mem_nil

end Session

namespace Child

/-- The later child is at the same place, was started if the earlier one was and has been waited for
if that has. -/
structure SamePlace (child later : Child) : Prop where
  index : later.index = child.index
  started : later.started = child.started
  unreaped : later.unreaped = child.unreaped

namespace SamePlace

variable {child middle later : Child}

private theorem refl (child : Child) : child.SamePlace child := ⟨rfl, rfl, rfl⟩

private theorem trans (first : child.SamePlace middle) (second : middle.SamePlace later) :
    child.SamePlace later :=
  ⟨second.index.trans first.index, second.started.trans first.started,
    second.unreaped.trans first.unreaped⟩

end SamePlace

private theorem samePlace_answer (child : Child) (mode : LookupMode) (line : Bytes) :
    child.SamePlace (child.answer mode line) := by
  unfold answer
  split
  · exact .refl child
  · exact ⟨rfl, rfl, rfl⟩

private theorem samePlace_receive (child : Child) (data : Bytes) :
    child.SamePlace (child.receive data) := by
  have answers (lines : List Bytes) (mode : LookupMode) (child : Child) :
      child.SamePlace (lines.foldl (fun child line => child.answer mode line) child) := by
    induction lines generalizing child with
    | nil => exact .refl child
    | cons line rest ih => exact (child.samePlace_answer mode line).trans (ih _)
  unfold receive
  split
  · exact ⟨rfl, rfl, rfl⟩
  · exact ⟨rfl, rfl, rfl⟩
  · exact { answers _ _ child with }

/-- A child that was written to has its place. -/
theorem samePlace_write {child later : Child} {data : Bytes}
    (written : child.write data = .ok later) : child.SamePlace later := by
  unfold write at written
  split at written
  · cases written
    exact .refl child
  · split at written
    · cases written
    · split at written
      · cases written
      · cases written
        exact child.samePlace_receive data

private theorem samePlace_readLine {child later : Child} {delimiter : UInt8} {line : Option Bytes}
    (read : child.readLine delimiter = .ok (line, later)) : child.SamePlace later := by
  unfold readLine at read
  split at read
  · cases read
    exact ⟨rfl, rfl, rfl⟩
  · cases read

private theorem samePlace_readExact {child later : Child} {count : Nat} {data : Option Bytes}
    (read : child.readExact count = .ok (data, later)) : child.SamePlace later := by
  unfold readExact at read
  split at read
  · cases read
    exact ⟨rfl, rfl, rfl⟩
  · cases read

private theorem samePlace_endInput (child : Child) : child.SamePlace child.endInput := by
  unfold endInput
  split
  · exact .refl child
  · split
    · exact .refl child
    · exact ⟨rfl, rfl, rfl⟩
    · rename_i mode partialLine _
      have answered : child.SamePlace
          (if partialLine.isEmpty = true then child else child.answer mode partialLine) := by
        split
        · exact .refl child
        · exact child.samePlace_answer mode partialLine
      dsimp only
      split
      · exact answered
      · exact { answered with }

private theorem samePlace_closeInput (child : Child) : child.SamePlace child.closeInput := by
  unfold closeInput
  split
  · exact { child.samePlace_endInput with }
  · exact .refl child

private theorem samePlace_closeOutput (child : Child) : child.SamePlace child.closeOutput := by
  unfold closeOutput
  split
  · exact .refl child
  · exact ⟨rfl, rfl, rfl⟩

private theorem index_launch (child : Child) (index : Nat) : (child.launch index).index = index :=
    by
  unfold launch
  dsimp only
  split <;> rfl

private theorem unreaped_launch (child : Child) (index : Nat) :
    (child.launch index).unreaped = true := by
  unfold launch
  dsimp only
  split <;> rfl

variable {base : List (Option Int)} {places : List Nat}

/-- A child that is started is awaited. -/
theorem ensures_start (child : Child) :
    Ensures (Session.Awaits base places) child.start fun started session =>
      started.unreaped = true ∧ session.Awaits base (started.index :: places) := by
  intro session started last awaits begun
  obtain ⟨-, rfl, rfl⟩ := start_eq_ok begun
  have children : (child.entered session).children = session.children ++ [none] := rfl
  have fits : base.length ≤ session.children.length := awaits.earlier.length_le
  rw [index_launch]
  refine ⟨child.unreaped_launch _, ?_, ?_, ?_⟩
  · rw [children]
    exact awaits.earlier.trans (List.prefix_append _ _)
  · rw [children, List.length_append, List.length_singleton]
    refine List.forall_mem_cons.mpr ⟨⟨fits, Nat.lt_succ_self _⟩, fun place member => ?_⟩
    obtain ⟨beyond, inside⟩ := awaits.later place member
    exact ⟨beyond, Nat.lt_succ_of_lt inside⟩
  · intro place status beyond found
    rw [children] at found
    by_cases inside : place < session.children.length
    · rw [List.getElem?_append_left inside] at found
      exact (awaits.ended place status beyond found).imp_left (List.mem_cons_of_mem _)
    · left
      have short := (List.getElem?_eq_some_iff.mp found).1
      rw [List.length_append, List.length_singleton] at short
      exact List.mem_cons.mpr (.inl (by omega))

/-- Waiting for a child that was not waited for tells its place and how it ended. -/
theorem reap_eq_ok {child reaped : Child} {status : Int} (unreaped : child.unreaped = true)
    (waited : child.reap = .ok (status, reaped)) : reaped.index = child.index := by
  unfold reap at waited
  split at waited
  · cases waited
  · cases waited
    have drained : child.SamePlace { child with output := child.output.drain } := ⟨rfl, rfl, rfl⟩
    exact ((drained.trans (samePlace_closeInput _)).trans (samePlace_closeOutput _)).index

private theorem accept_eq_ok {child : Child} {status : Int} {session last : Session}
    (accepted : child.accept status session = (.ok (), last)) : status = 0 ∧ last = session := by
  unfold accept at accepted
  split at accepted
  · obtain ⟨_, middle, -, failed⟩ := bind_eq_ok accepted
    rw [failUnlessInterrupted, bind_lift_apply] at failed
    cases requested : (poll middle).1 <;> rw [requested] at failed <;> cases failed
  · rename_i well
    cases accepted
    exact ⟨Decidable.not_not.mp well, rfl⟩

/-- A child that was waited for with success is not awaited any more. -/
theorem ensures_wait {child : Child} (unreaped : child.unreaped = true) :
    Ensures (Session.Awaits base (child.index :: places)) child.wait
      fun _ => Session.Awaits base places := by
  intro session _ last awaits waited
  obtain ⟨⟨status, reaped⟩, middle, finished, accepted⟩ := bind_eq_ok waited
  obtain ⟨rfl, rfl⟩ := accept_eq_ok accepted
  unfold finish at finished
  rcases reaps : child.reap with problem | ⟨told, gone⟩ <;> rw [reaps] at finished
  · cases finished
  · have same := reap_eq_ok unreaped reaps
    cases finished
    rw [← same] at awaits
    exact awaits.settle

/-- A command that is over ended well if waiting for it succeeds. -/
theorem IsOver.endedWell {child : Child} {arguments : List Bytes} {errorText : Bytes}
    {ending : Ending} (isOver : child.IsOver arguments errorText ending) :
    Yields child.wait fun _ => ending.status = 0 := by
  intro session _ last waited
  obtain ⟨⟨status, reaped⟩, middle, finished, accepted⟩ := bind_eq_ok waited
  obtain ⟨well, -⟩ := accept_eq_ok accepted
  unfold finish at finished
  rw [isOver.reap] at finished
  cases finished
  exact well

end Child

section SameChildren

variable {α : Type}

/-- Records leave the children alone. -/
theorem Audit.sameChildren_log (level : Int) (line : Bytes) :
    Within Session.SameChildren (log level line) := fun _ => rfl

/-- A look at the stop signal leaves the children alone. -/
theorem Audit.sameChildren_checkInterrupt : Within Session.SameChildren checkInterrupt := by
  refine .bind (Within.lift fun _ => rfl) fun requested => ?_
  cases requested
  · exact within_pure ()
  · exact within_throw _

private theorem Audit.sameChildren_failUnlessInterrupted (failure : Failure) :
    Within Session.SameChildren (failUnlessInterrupted failure : Audit α) := by
  refine .bind (Within.lift fun _ => rfl) fun requested => ?_
  cases requested
  · exact within_throw _
  · exact within_throw _

/-- A step that leaves the children alone leaves those to wait for. -/
theorem Audit.Ensures.of_sameChildren {step : Audit α} {base : List (Option Int)}
    {places : List Nat} (within : Within Session.SameChildren step) :
    Ensures (Session.Awaits base places) step fun _ => Session.Awaits base places :=
  .of_within within fun _ _ same awaits => awaits.of_sameChildren same

end SameChildren

namespace Lookup

/-- The look-up can be asked, and has still to be ended. -/
structure IsOpen (lookup : Lookup) : Prop where
  running : lookup.running = true
  unreaped : lookup.child.unreaped = true

/-- The later look-up is the same with some more questions answered. -/
structure Continues (lookup later : Lookup) : Prop where
  child : lookup.child.SamePlace later.child
  running : later.running = lookup.running

/-- A look-up continues itself. -/
theorem Continues.refl (lookup : Lookup) : lookup.Continues lookup := ⟨.refl _, rfl⟩

/-- What continues a look-up that continues another continues that one. -/
theorem Continues.trans {lookup middle later : Lookup} (first : lookup.Continues middle)
    (second : middle.Continues later) : lookup.Continues later :=
  ⟨first.child.trans second.child, second.running.trans first.running⟩

/-- A look-up stays open while it continues. -/
theorem Continues.isOpen {lookup later : Lookup} (continues : lookup.Continues later)
    (isOpen : lookup.IsOpen) : later.IsOpen :=
  ⟨continues.running.trans isOpen.running, continues.child.unreaped.trans isOpen.unreaped⟩

private theorem continues_readContent (lookup : Lookup) (object : FoundObject) (length : Nat) :
    lookup.Continues (lookup.readContent object length).1 := by
  unfold readContent
  rcases first : lookup.child.readExact length with problem | ⟨_ | data, child⟩
  · exact .refl lookup
  · exact ⟨Child.samePlace_readExact first, rfl⟩
  · have began := Child.samePlace_readExact first
    dsimp only
    rcases second : child.readExact 1 with problem | ⟨_ | trailer, later⟩
    · exact ⟨began, rfl⟩
    · exact ⟨began.trans (Child.samePlace_readExact second), rfl⟩
    · dsimp only
      split <;> exact ⟨began.trans (Child.samePlace_readExact second), rfl⟩

private theorem continues_readAnswer (lookup : Lookup) : lookup.Continues lookup.readAnswer.1 := by
  unfold readAnswer
  rcases read : lookup.child.readLine Ascii.newline with problem | ⟨_ | line, child⟩
  · exact .refl lookup
  · exact ⟨Child.samePlace_readLine read, rfl⟩
  · have began : lookup.Continues { lookup with child } := ⟨Child.samePlace_readLine read, rfl⟩
    dsimp only
    split
    · exact began
    · exact began
    · split
      · exact began
      · exact began.trans (continues_readContent _ _ _)

private theorem continues_ask (lookup : Lookup) (name : Bytes) :
    lookup.Continues (lookup.ask name).1 := by
  unfold ask
  split
  · exact .refl lookup
  · rcases written : lookup.child.write (name ++ [Ascii.newline]) with problem | child
    · exact .refl lookup
    · have began : lookup.Continues { lookup with child } :=
        ⟨Child.samePlace_write written, rfl⟩
      exact began.trans (continues_readAnswer _)

private theorem continues_get (lookup : Lookup) (name : Bytes) :
    Yields (lookup.get name) fun result => lookup.Continues result.2 := by
  have asked : Yields (lookup.get? name) fun result => lookup.Continues result.2 :=
    (yields_any _).bind fun _ _ => yields_pure (lookup.continues_ask name)
  refine asked.bind fun (found, later) continues => ?_
  cases found with
  | none => exact yields_throw _ _
  | some object => exact yields_pure continues

private theorem sameChildren_conclude (lookup : Lookup) (outcome : LookupOutcome) :
    Within Session.SameChildren (lookup.conclude outcome) := by
  cases outcome with
  | found object => exact within_pure _
  | missing => exact within_pure _
  | badName => exact within_throw _
  | ended => exact sameChildren_failUnlessInterrupted _
  | shortRead => exact sameChildren_failUnlessInterrupted _
  | badHeader line => exact within_throw _
  | badTrailer digest => exact within_throw _
  | pipe problem => exact within_throw _

private theorem sameChildren_get (lookup : Lookup) (name : Bytes) :
    Within Session.SameChildren (lookup.get name) := by
  have asked : Within Session.SameChildren (lookup.get? name) :=
    .bind (sameChildren_conclude _ _) fun _ => within_pure _
  refine .bind asked fun (found, later) => ?_
  cases found with
  | none => exact within_throw _
  | some object => exact within_pure _

variable {base : List (Option Int)} {places : List Nat}

/-- Asking leaves awaited what was. -/
theorem ensures_get (lookup : Lookup) (name : Bytes) :
    Ensures (Session.Awaits base places) (lookup.get name) fun result session =>
      lookup.Continues result.2 ∧ session.Awaits base places :=
  (Ensures.of_sameChildren (lookup.sameChildren_get name)).and_yields (lookup.continues_get name)

/-- A look-up that starts is one more child to wait for. -/
theorem ensures_start (repository : Repository) (mode : LookupMode) :
    Ensures (Session.Awaits base places) (start repository mode) fun lookup session =>
      lookup.IsOpen ∧ session.Awaits base (lookup.child.index :: places) :=
  (Child.ensures_start _).bind fun _ => .of_fact fun unreaped =>
    ensures_pure fun _ awaits => ⟨⟨rfl, unreaped⟩, awaits⟩

/-- A look-up that is closed has been waited for. -/
theorem ensures_close {lookup : Lookup} (isOpen : lookup.IsOpen) :
    Ensures (Session.Awaits base (lookup.child.index :: places)) lookup.close
      fun _ => Session.Awaits base places := by
  have closed : lookup.child.SamePlace lookup.closed.child := lookup.child.samePlace_closeInput
  rw [close, if_pos isOpen.running, ← closed.index]
  exact Child.ensures_wait (closed.unreaped.trans isOpen.unreaped)

end Lookup

/-- Whether a call ends well, as its arguments settle. -/
def Repository.EndsWell (repository : Repository) (arguments : List Bytes) : Prop :=
  (repository.transcript.call arguments).ending.status = 0

namespace RecordListing

variable {base : List (Option Int)} {places : List Nat} {repository : Repository}
  {arguments : List Bytes}

/-- A listing that starts is one more child to wait for. -/
theorem ensures_start (delimiter : UInt8)
    (listing : Child.lookupMode? (arguments.map Bytes.beforeNul) = none) :
    Ensures (Session.Awaits base places) (start repository arguments delimiter)
      fun given session => given.IsOf repository arguments delimiter ∧
        session.Awaits base (given.child.index :: places) := by
  refine Ensures.and_yields ?_ (yields_start delimiter listing)
  refine .bind (.bind (Child.ensures_start _) fun child => .of_fact fun _ => ?_) fun child =>
    ensures_pure fun _ awaits => awaits
  exact ensures_pure fun session awaits => child.samePlace_closeInput.index.symm ▸ awaits

/-- A listing that was waited for is no child to wait for. -/
theorem ensures_wait {given : RecordListing} (hasRun : given.child.HasRun repository arguments) :
    Ensures (Session.Awaits base (given.child.index :: places)) given.child.wait
      fun _ session => repository.EndsWell arguments ∧ session.Awaits base places :=
  (Child.ensures_wait hasRun.unreaped).and_yields hasRun.endedWell

end RecordListing

end StoreAudit
