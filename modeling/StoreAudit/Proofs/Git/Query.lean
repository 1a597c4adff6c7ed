import StoreAudit.Git.Query
import StoreAudit.Proofs.Git.Endings
import StoreAudit.Proofs.Text.Split

/-!
# What git is asked and what it answers

A command that is run to its end gives everything that the call has for output, and its status or
the failure that the status is. So a configuration listing is read back, entry by entry, as what it
was printed from (`Repository.configuration_of_listing`), and a commit is asked for only with an
expression that git cannot take for an option (`Repository.resolveBy_congr`).
-/

namespace StoreAudit

open Audit

namespace Repository

variable (repository : Repository) {arguments : List Bytes}

/-- A command that is tried and not refused does not fail, however it ends. -/
theorem tryRun_apply (listing : Child.lookupMode? (arguments.map Bytes.beforeNul) = none)
    (session : Session) :
    (repository.tryRun arguments session).1 =
      match session.refusal? with
      | some failure => .error failure
      | none => .ok ((repository.transcript.call arguments).ending.status,
          (repository.transcript.call arguments).output) := by
  rw [tryRun, bind_apply, start_apply]
  cases session.refusal? with
  | some failure => rfl
  | none =>
      have read := Child.readAll_launch repository arguments session.children.length listing
      have done := Child.isOver_launch repository arguments session.children.length listing
      refine (congrArg Prod.fst (bind_apply_of_ok (done.finish_apply _))).trans ?_
      exact congrArg (fun read : Bytes × PipeReader => Except.ok (_, read.1)) read

/-- A command that must end well gives its output, or the failure that its end is. -/
theorem run_apply (listing : Child.lookupMode? (arguments.map Bytes.beforeNul) = none)
    (session : Session) :
    (repository.run arguments session).1 =
      match session.refusal?, repository.callFailure? arguments with
      | some failure, _ => .error failure
      | none, none => .ok (repository.transcript.call arguments).output
      | none, some failure =>
        .error (if session.signal.requested then .interrupted else failure) := by
  rw [run, bind_apply, start_apply]
  cases session.refusal? with
  | some failure => rfl
  | none =>
      have read := Child.readAll_launch repository arguments session.children.length listing
      have done := Child.isOver_launch repository arguments session.children.length listing
      have waited := done.wait_apply repository
        ((Child.idle repository arguments).entered session)
      dsimp only
      refine (congrArg Prod.fst (bind_pure_apply _ (fun _ => _) _)).trans ?_
      refine (congrArg (Except.map _) waited).trans ?_
      rw [read, callFailure?]
      cases repository.endFailure? arguments _ _ <;> rfl

/-- Git is there if it can be started and tells its version; to ask does not fail. -/
theorem isGitAvailable_apply (session : Session) :
    (repository.isGitAvailable session).1 =
      .ok (session.refusal?.isNone &&
        (repository.transcript.call [ascii "--version"]).ending.status == 0) := by
  have unlisted : Child.lookupMode? ([ascii "--version"].map Bytes.beforeNul) = none := by decide
  have tried := { repository with directory := ascii "." }.tryRun_apply unlisted session
  rcases ran : { repository with directory := ascii "." }.tryRun [ascii "--version"] session with
    ⟨failure | ⟨status, output⟩, after⟩ <;> rw [ran] at tried
  · cases refused : session.refusal? with
    | none => cases refused ▸ tried
    | some given =>
        cases refused ▸ tried
        obtain ⟨call, errno, rfl⟩ := Spawn.ofStart_of_failure? refused
        rw [isGitAvailable, tryCatch_apply, bind_apply_of_error ran]
        rfl
  · cases refused : session.refusal? with
    | some given => cases refused ▸ tried
    | none =>
        cases refused ▸ tried
        rw [isGitAvailable, tryCatch_apply, bind_apply_of_ok ran]
        rfl

end Repository

/-- A configured key, and the value it was given, if any. -/
structure ConfigEntry where
  key : Bytes
  value : Option Bytes
  key_ne_nil : key ≠ [] := by decide
  newline_notMem_key : Ascii.newline ∉ key := by decide
  nul_notMem_key : 0 ∉ key := by decide
  nul_notMem_value : ∀ given ∈ value, 0 ∉ given := by decide

namespace ConfigEntry

/-- The entry as it is printed, without the zero byte after it. -/
def text (entry : ConfigEntry) : Bytes :=
  match entry.value with
  | none => entry.key
  | some given => entry.key ++ Ascii.newline :: given

/-- The listing of entries. -/
def listing (entries : List ConfigEntry) : Bytes :=
  entries.flatMap fun entry => entry.text ++ [0]

/-- The key and what is taken for its value: a key alone is switched on. -/
def setting (entry : ConfigEntry) : Bytes × Bytes :=
  (entry.key, entry.value.getD (ascii "true"))

private theorem nul_notMem_text (entry : ConfigEntry) : 0 ∉ entry.text := by
  have inKey := entry.nul_notMem_key
  unfold text
  cases given : entry.value with
  | none => exact inKey
  | some value =>
      have inValue := entry.nul_notMem_value value given
      simp [inKey, inValue, show (0 : UInt8) ≠ Ascii.newline by decide]

private theorem text_ne_nil (entry : ConfigEntry) : entry.text ≠ [] := by
  unfold text
  split
  · exact entry.key_ne_nil
  · simp

/-- An entry is read back, whatever its value holds. -/
theorem configEntry?_text (entry : ConfigEntry) :
    Repository.configEntry? entry.text = some entry.setting := by
  rw [Repository.configEntry?, if_neg (by simpa using entry.text_ne_nil)]
  unfold text setting
  cases given : entry.value with
  | none =>
      have noCut : Bytes.splitFirst [Ascii.newline] entry.key = none := by
        rw [← Option.not_isSome_iff_eq_none]
        intro cut
        obtain ⟨⟨before, after⟩, shape⟩ := Option.isSome_iff_exists.mp cut
        obtain ⟨whole, -⟩ := Bytes.splitFirst_eq_some_iff.mp shape
        exact entry.newline_notMem_key (by simp [whole])
      simp [noCut]
  | some value =>
      simp [Bytes.splitFirst_append_cons entry.newline_notMem_key]

/-- A listing is read back as its entries, in their order. -/
theorem parseConfig_listing (entries : List ConfigEntry) :
    Repository.parseConfig (listing entries) = entries.map setting := by
  have texts : Bytes.split 0 (listing entries) = entries.map text := by
    have whole : ∀ part ∈ entries.map text, 0 ∉ part := by simp [nul_notMem_text]
    rw [← Bytes.split_flatMap whole, List.flatMap_map]
    rfl
  have read : Repository.configEntry? ∘ text = some ∘ setting := funext configEntry?_text
  rw [Repository.parseConfig, texts, List.filterMap_map, read, List.filterMap_eq_map]

end ConfigEntry

namespace Repository

/-- The command that lists the configuration. -/
def configCommand : List Bytes := [ascii "config", ascii "-l", ascii "-z"]

/-- Where git can be started, prints the listing of some entries and ends well, the configuration is
these entries in their order, each value as it was given, and every key without a value is switched
on. -/
theorem configuration_of_listing {repository : Repository} {entries : List ConfigEntry}
    (printed : (repository.transcript.call configCommand).output = ConfigEntry.listing entries)
    (well : (repository.transcript.call configCommand).ending.status = 0) (session : Session) :
    (repository.configuration session).1 =
      match session.refusal? with
      | some failure => .error failure
      | none => .ok (entries.map fun entry => (entry.key, entry.value.getD (ascii "true"))) := by
  have unlisted : Child.lookupMode? (configCommand.map Bytes.beforeNul) = none := by decide
  have ran := repository.run_apply unlisted session
  rw [callFailure?, endFailure?, if_pos well, printed] at ran
  refine (congrArg Prod.fst (bind_pure_apply _ parseConfig session)).trans ?_
  refine (congrArg (Except.map parseConfig) ran).trans ?_
  cases session.refusal? with
  | some failure => rfl
  | none => exact congrArg Except.ok (ConfigEntry.parseConfig_listing entries)

/-- A key that is switched on, one that is set to nothing, and one that is set to lines of which one
looks like another entry, and set again. -/
def sampleEntries : List ConfigEntry :=
  [{ key := ascii "core.bare", value := none },
    { key := ascii "lfs.storage", value := some [] },
    { key := ascii "lfs.fetchexclude", value := some (ascii "a=b\nlfs.storage\n\n=") },
    { key := ascii "lfs.fetchexclude", value := some (ascii "true") }]

/-- Entries with and without values, one of them set twice. -/
theorem configuration_of_sampleEntries :
    let repository : Repository :=
      { directory := ascii "."
        transcript :=
          { calls := [{ arguments := configCommand, output := ConfigEntry.listing sampleEntries
                        errorText := ascii "warning" }] } }
    (repository.configuration {}).1 =
      .ok [(ascii "core.bare", ascii "true"), (ascii "lfs.storage", []),
        (ascii "lfs.fetchexclude", ascii "a=b\nlfs.storage\n\n="),
        (ascii "lfs.fetchexclude", ascii "true")] := by
  intro repository
  exact @configuration_of_listing repository sampleEntries (by decide) (by decide) {}

/-- Git cannot take the expression for an option, nor for no expression at all. -/
def IsAskable (expression : Bytes) : Prop :=
  expression ≠ [] ∧ expression.head? ≠ some Ascii.dash

/-- The command that tells the commit of an expression. -/
def commitCommand (expression : Bytes) : List Bytes :=
  [ascii "rev-parse", ascii "--verify", ascii "-q", expression ++ ascii "^\x7bcommit\x7d"]

/-- The commit that an expression names, as told by whoever is asked in place of git. -/
def resolveBy (ask : List Bytes → Audit (Int × Bytes)) (expression : Bytes) : Audit Bytes := do
  if expression.isEmpty || expression.head? = some Ascii.dash then throw (.invalidRef expression)
  let (status, output) ← ask (commitCommand expression)
  if status ≠ 0 then throw (.invalidRef expression)
  pure output.trim

/-- The commit of an expression is asked of git. -/
theorem resolve_eq_resolveBy (repository : Repository) :
    repository.resolve = resolveBy repository.tryRun := rfl

section ResolveBy

variable {ask other : List Bytes → Audit (Int × Bytes)} {expression : Bytes}

/-- An expression that git could mistake is refused before git is asked. -/
theorem resolveBy_of_not_isAskable (refused : ¬ IsAskable expression) :
    resolveBy ask expression = throw (.invalidRef expression) := by
  rw [resolveBy, if_pos]
  · rfl
  · simp only [Bool.or_eq_true, List.isEmpty_iff, decide_eq_true_eq]
    refine Decidable.byContradiction fun apart => refused ⟨fun empty => ?_, fun dash => ?_⟩
    · exact apart (.inl empty)
    · exact apart (.inr dash)

private theorem resolveBy_of_isAskable (askable : IsAskable expression) :
    resolveBy ask expression = ask (commitCommand expression) >>= fun answer =>
      if answer.1 ≠ 0 then throw (.invalidRef expression) else pure answer.2.trim := by
  have asked : ¬ (expression.isEmpty || expression.head? = some Ascii.dash) = true := by
    simpa [IsAskable] using askable
  rw [resolveBy, if_neg asked]
  refine bind_congr fun answer => ?_
  split
  rfl

/-- Nobody is asked anything but for expressions that git cannot mistake. -/
theorem resolveBy_congr (agree : ∀ expression, IsAskable expression →
    ask (commitCommand expression) = other (commitCommand expression)) :
    resolveBy ask = resolveBy other := by
  funext expression
  by_cases askable : IsAskable expression
  · rw [resolveBy, resolveBy, agree expression askable]
  · rw [resolveBy_of_not_isAskable askable, resolveBy_of_not_isAskable askable]

end ResolveBy

private theorem lookupMode?_commitCommand (expression : Bytes) :
    Child.lookupMode? ((commitCommand expression).map Bytes.beforeNul) = none := by
  simp [commitCommand, Child.lookupMode?, Child.lookupArguments]

/-- Where git does not tell the commit of an expression, it is a bad ref, or the system refused to
start git. -/
theorem resolve_eq_error {repository : Repository} {expression : Bytes} {session : Session}
    {failure : Failure} (failed : (repository.resolve expression session).1 = .error failure) :
    failure.kind = .coded .badRef ∨ ¬ session.Unrefused ∧ failure.OfStart := by
  have tried := repository.tryRun_apply (lookupMode?_commitCommand expression) session
  rw [resolve_eq_resolveBy] at failed
  by_cases askable : IsAskable expression
  · rw [resolveBy_of_isAskable askable, bind_apply] at failed
    rcases ran : repository.tryRun (commitCommand expression) session with
      ⟨reason | ⟨status, output⟩, after⟩ <;> rw [ran] at failed tried
    · cases failed
      cases refused : session.refusal? with
      | none =>
          rw [refused] at tried
          cases tried
      | some given =>
          rw [refused] at tried
          cases tried
          refine .inr ⟨fun unrefused => ?_, Spawn.ofStart_of_failure? refused⟩
          cases refused.symm.trans unrefused.next
    · dsimp only at failed
      split at failed <;> cases failed
      exact .inl rfl
  · rw [resolveBy_of_not_isAskable askable] at failed
    cases failed
    exact .inl rfl

/-- Where the system refuses nothing, it goes on like that after a ref was resolved. -/
theorem staysUnrefused_resolve (repository : Repository) (expression : Bytes) :
    Within Session.StaysUnrefused (repository.resolve expression) := by
  have finish (child : Child) : Within Session.StaysUnrefused child.finish := by
    unfold Child.finish
    split
    · exact within_throw _
    · exact .bind (Within.lift fun _ => id) fun _ => within_pure _
  have tryRun (arguments : List Bytes) :
      Within Session.StaysUnrefused (repository.tryRun arguments) :=
    .bind (.bind (Child.staysUnrefused_start _) fun _ => within_pure _) fun _ =>
      (finish _).bind fun _ => within_pure _
  rw [resolve_eq_resolveBy]
  by_cases askable : IsAskable expression
  · rw [resolveBy_of_isAskable askable]
    refine (tryRun _).bind fun answer => ?_
    split
    · exact within_throw _
    · exact within_pure _
  · rw [resolveBy_of_not_isAskable askable]
    exact within_throw _

end Repository

end StoreAudit
