import StoreAudit.Git.Child

/-!
# Questions about a repository

Where it is, how it is configured, and which commits its refs name.
-/

namespace StoreAudit.Repository

/-- The directory that holds the history. -/
def gitDirectory (repository : Repository) : Audit Bytes := do
  let (status, output) ← repository.tryRun [ascii "rev-parse", ascii "--absolute-git-dir"]
  if status ≠ 0 then throw .notARepository
  pure output.trim

/-- The directory with the checked-out files, or nothing without one. -/
def workTree (repository : Repository) : Audit Bytes := do
  let (status, output) ← repository.tryRun [ascii "rev-parse", ascii "--show-toplevel"]
  pure (if status ≠ 0 then [] else output.trim)

/-- The key and value of one entry of a configuration listing; a key alone is switched on. -/
def configEntry? (entry : Bytes) : Option (Bytes × Bytes) :=
  if entry.isEmpty then none
  else (Bytes.splitFirst [Ascii.newline] entry).or (some (entry, ascii "true"))

/-- The keys and values of a configuration listing, in its order. -/
def parseConfig (listing : Bytes) : List (Bytes × Bytes) :=
  (Bytes.split 0 listing).filterMap configEntry?

/-- Every configured key, in the order of precedence. -/
def configuration (repository : Repository) : Audit (List (Bytes × Bytes)) := do
  let listing ← repository.run [ascii "config", ascii "-l", ascii "-z"]
  pure (parseConfig listing)

/-- Whether git can be run at all. -/
def isGitAvailable (repository : Repository) : Audit Bool :=
  tryCatch
    (do
      let (status, _) ← { repository with directory := ascii "." }.tryRun [ascii "--version"]
      pure (status == 0))
    fun failure => do
      match failure with
      | .system _ _ =>
        Audit.warn (ascii "Cannot run git: " ++ failure.message)
        pure false
      | other => throw other

/-- The commit that an expression names. -/
def resolve (repository : Repository) (expression : Bytes) : Audit Bytes := do
  if expression.isEmpty || expression.head? = some Ascii.dash then throw (.invalidRef expression)
  let (status, output) ← repository.tryRun
    [ascii "rev-parse", ascii "--verify", ascii "-q", expression ++ ascii "^\x7bcommit\x7d"]
  if status ≠ 0 then throw (.invalidRef expression)
  pure output.trim

end StoreAudit.Repository
