import StoreAudit.Proofs.Command.ExitStatus
import StoreAudit.Proofs.Git.Query
import StoreAudit.Proofs.Text.Decimal

/-!
# Reading the settings of a repository

What git is configured with counts where it says anything, and a settings file among the checked-out
files elsewhere (`Settings.value?_append_of_lookup`, `Settings.value?_append_of_unmentioned`); only
three keys are ever looked at (`Settings.configuration_congr`). Reading the settings changes no
files, and a program that cannot read them has done nothing (`Repository.runProgram_unconfigured`).
-/

namespace StoreAudit

open Audit

namespace Settings

variable {settings more : Settings} {key : Bytes}

/-- The settings say nothing of a key, nor of any key below it. -/
def Unmentioned (settings : Settings) (key : Bytes) : Prop :=
  ∀ entry ∈ settings, entry.1 ≠ key ∧ ¬ key ++ ascii "." <+: entry.1

/-- Settings that are read later count where they give a key a value. -/
theorem value?_append_of_lookup {value : Bytes} (given : more.reverse.lookup key = some value) :
    (settings ++ more : Settings).value? key = some value := by
  rw [value?, List.reverse_append, List.lookup_append, given]
  rfl

/-- Settings that are read later leave other keys alone. -/
theorem value?_append_of_unmentioned (unmentioned : more.Unmentioned key) :
    (settings ++ more : Settings).value? key = settings.value? key := by
  have absent : more.reverse.lookup key = none := by
    rw [List.lookup_eq_none_iff]
    intro entry member
    have apart := (unmentioned entry (List.mem_reverse.mp member)).1
    simpa using fun same => apart same.symm
  have free : (more.any fun entry => (key ++ ascii ".").isPrefixOf entry.1) = false := by
    rw [List.any_eq_false]
    intro entry member
    rw [List.isPrefixOf_iff_prefix]
    exact (unmentioned entry member).2
  rw [value?, value?, List.reverse_append, List.lookup_append, absent, List.any_append, free,
    Bool.or_false]
  rfl

/-- Of all that can be set, a check looks at three keys. -/
theorem configuration_congr (same : ∀ key ∈ [ascii "lfs.storage", ascii "lfs.fetchexclude",
      ascii "lfs.fsck.jobs"], settings.value? key = more.value? key) (gitDirectory : Bytes) :
    settings.configuration gitDirectory = more.configuration gitDirectory := by
  have storage := same (ascii "lfs.storage") (by simp)
  have exclude := same (ascii "lfs.fetchexclude") (by simp)
  have jobs := same (ascii "lfs.fsck.jobs") (by simp)
  unfold configuration storagePath value number
  rw [storage, exclude, jobs]

/-- A number is read where nothing is set, as it is given beforehand, or where a numeral below 2^31
is set, whatever blanks are around it. -/
theorem number_eq_ok_iff {default number : Int} :
    settings.number key default = .ok number ↔
      settings.value? key = none ∧ number = default ∨
        ∃ value count, settings.value? key = some value ∧
          Decimal.Denotes value.trim count ∧ count < 2 ^ 31 ∧ number = count := by
  unfold Settings.number
  cases settings.value? key with
  | none => simp [eq_comm]
  | some value =>
      simp only [reduceCtorEq, false_and, false_or, Option.some.injEq, exists_and_left,
        exists_eq_left']
      have most : maxNumber.toNat + 1 = 2 ^ 31 := rfl
      have wide : 2 ^ 31 < UInt64.size := by decide
      cases read : Decimal.toWord? value.trim with
      | none =>
          refine iff_of_false nofun ?_
          rintro ⟨count, denotes, small, -⟩
          have word : (UInt64.ofNat count).toNat = count := UInt64.toNat_ofNat_of_lt' (by omega)
          cases read.symm.trans (Decimal.toWord?_eq_some_iff.mpr (word.symm ▸ denotes))
      | some word =>
          have denotes := Decimal.toWord?_eq_some_iff.mp read
          have bound : word ≤ maxNumber ↔ word.toNat < 2 ^ 31 := by
            rw [UInt64.le_iff_toNat_le]
            omega
          simp only [bound]
          constructor
          · intro given
            split at given <;> cases given
            exact ⟨_, denotes, ‹_›, rfl⟩
          · rintro ⟨count, again, small, rfl⟩
            obtain rfl : word.toNat = count := denotes.value.symm.trans again.value
            rw [if_pos small]

/-- A number that cannot be read is a bad configuration. -/
theorem kind_of_number_eq_error {default : Int} {failure : Failure}
    (failed : settings.number key default = .error failure) :
    failure.kind = .coded .badConfig := by
  unfold number at failed
  repeat' split at failed
  all_goals cases failed
  all_goals rfl

end Settings

namespace Repository

variable (repository : Repository) (reader : SettingsReader)

private theorem spares_fileSettings (directory : Bytes) :
    Within Session.Spares (fileSettings reader directory) := by
  have looks (path : Bytes) : Within Session.Spares (inspect path) := fun session =>
    ⟨rfl, rfl, rfl, session.sees_self⟩
  have reads : Within Session.Spares (get : Audit Session) := fun session => refl session
  unfold fileSettings
  refine reads.bind fun session => ?_
  split
  · exact within_pure _
  · refine (Within.lift (looks _)).bind fun files => ?_
    split
    · exact within_pure _
    · exact within_throw _

/-- Reading the settings changes no files. -/
theorem spares_loadConfiguration : Within Session.Spares (repository.loadConfiguration reader) := by
  have asks (arguments : List Bytes) : Within Session.Spares (repository.tryRun arguments) :=
    (repository.scanning_tryRun arguments).within.mono fun _ _ scans => scans.observes.spares
  have runs (arguments : List Bytes) : Within Session.Spares (repository.run arguments) :=
    (repository.scanning_run arguments).within.mono fun _ _ scans => scans.observes.spares
  have lists : Within Session.Spares repository.configuration :=
    (runs _).bind fun _ => within_pure _
  have locates : Within Session.Spares repository.gitDirectory := by
    refine (asks _).bind fun (status, output) => ?_
    dsimp only
    split
    · exact Within.bind (within_throw _) fun _ => within_pure _
    · exact within_pure _
  have surveys : Within Session.Spares repository.workTree :=
    (asks _).bind fun _ => within_pure _
  exact locates.bind fun _ => surveys.bind fun tree =>
    (spares_fileSettings reader tree).bind fun _ => lists.bind fun _ => within_pure _

/-- A check in a repository is a check as its settings say, in the session in which they were read.
-/
theorem check_of_loaded {configuration : Configuration} {arguments : CheckArguments}
    {session after : Session} (tracing : Bool)
    (loaded : repository.loadConfiguration reader session = (.ok configuration, after)) :
    repository.check reader tracing arguments session =
      Surroundings.check CheckPlan.carryOut { repository, configuration, tracing } arguments
        after := by
  have consulted : repository.consult reader session = (configuration, after) := by
    rw [consult, bind_state_apply, ExceptT.run, loaded]
    rfl
  rw [check, bind_lift_apply, consulted]

/-- A check in a repository whose settings cannot be read fails for that reason. -/
theorem check_of_unloaded {failure : Failure} {arguments : CheckArguments}
    {session after : Session} (tracing : Bool)
    (failed : repository.loadConfiguration reader session = (.error failure, after)) :
    repository.check reader tracing arguments session = (.error failure, after) := by
  have consulted :
      repository.consult reader session = ({ loadFailure := some failure }, after) := by
    rw [consult, bind_state_apply, ExceptT.run, failed]
    rfl
  rw [check, bind_lift_apply, consulted]
  rfl

/-- A check of a repository whose settings cannot be read ends with 2 and has attempted no change.
-/
theorem runProgram_unconfigured {words : List Bytes} {arguments : CheckArguments}
    {failure : Failure} {session after : Session}
    (read : CheckArguments.parse (words.map Bytes.beforeNul) = .ok arguments)
    (failed : repository.loadConfiguration reader (Surroundings.called session) =
      (.error failure, after)) :
    let result := repository.runProgram reader false (ascii "fsck" :: words) session
    result.1.status = 2 ∧ result.2.changes = session.changes ∧
      ((∀ place, session.journal.sink ≠ .file place) → result.2.files = session.files) := by
  have spares := repository.spares_loadConfiguration reader (Surroundings.called session)
  rw [failed] at spares
  have before := (Surroundings.scans_called session).observes.spares
  have whole : session.Spares after := IsTrans.trans _ _ _ before spares
  obtain ⟨status, tells⟩ := CommandLine.runCheck_of_error read
    (repository.check_of_unloaded reader false failed)
  intro result
  have ran : result = _ := CommandLine.run_fsck (repository.check reader false) words session
  rw [ran]
  refine ⟨status, tells.changes.trans whole.changes, fun noFile => ?_⟩
  have noFileAfter : ∀ place, after.journal.sink ≠ .file place := by rwa [whole.journal]
  exact (tells.files noFileAfter).trans (whole.files.eq_of_noFile noFile)

end Repository

end StoreAudit
