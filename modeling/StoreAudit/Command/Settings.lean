import StoreAudit.Git.Query
import StoreAudit.PathFilter
import StoreAudit.Text.PathName

/-!
# Settings

What a repository says about its store: in a settings file among the checked-out files, and in the
configuration of git, which takes precedence. How the text of a settings file is read is up to a
`SettingsReader`. Keys name the section and what is set in it, with dots between.
-/

namespace StoreAudit

/-- What the configuration says. -/
structure Configuration where
  /-- Why there is no configuration, if there is none. -/
  loadFailure : Option Failure := none
  storagePath : Bytes := ascii "lfs"
  /-- The patterns of paths whose objects are not expected in the store. -/
  fetchExclude : List Bytes := []
  /-- The number of jobs, or why it cannot be told. -/
  jobs : Except Failure Int := .ok 1

/-- A section of a settings file. -/
structure SettingsSection where
  heading : Bytes
  values : List (Bytes × Bytes)
  deriving DecidableEq, Repr

/-- Reads the settings file at a path: its sections, or what is wrong with it. -/
abbrev SettingsReader := FileTree → Bytes → Except Bytes (List SettingsSection)

namespace SettingsSection

/-- Text in small letters. -/
def lowerCase (text : Bytes) : Bytes :=
  text.map fun byte => if 65 ≤ byte && byte ≤ 90 then byte + 32 else byte

/-- Text without the quotes around it. -/
def unquoted (text : Bytes) : Bytes :=
  if 2 ≤ text.length && text.head? = some 34 && text.getLast? = some 34 then
    (text.drop 1).dropLast
  else text

/-- What the keys of the section begin with: its name, and the name of its part if it has one. -/
def root (part : SettingsSection) : Bytes :=
  let heading := part.heading.trim
  match Bytes.splitFirst [Ascii.space] heading with
  | none => lowerCase heading
  | some (name, rest) => lowerCase name ++ ascii "." ++ unquoted rest.trim

/-- The settings of the section, by their whole keys. -/
def settings (part : SettingsSection) : List (Bytes × Bytes) :=
  part.values.map fun (key, value) => (part.root ++ ascii "." ++ lowerCase key, value)

end SettingsSection

/-- Settings, in the order in which they were made. -/
abbrev Settings := List (Bytes × Bytes)

namespace Settings

/-- What is set for a key: the last value that it was given. A key that only leads to others is
there, but empty. -/
def value? (settings : Settings) (key : Bytes) : Option Bytes :=
  (settings.reverse.lookup key).or
    (if settings.any fun entry => (key ++ ascii ".").isPrefixOf entry.1 then some [] else none)

/-- The value of a key, or nothing. -/
def value (settings : Settings) (key : Bytes) : Bytes := (settings.value? key).getD []

/-- The largest number that can be set. -/
def maxNumber : UInt64 := 2147483647

/-- The failure to read a number. -/
def badNumber (key text : Bytes) : Failure :=
  .reported .badConfig (ascii "Bad value for " ++ key ++ ascii ": '" ++ text ++ ascii "'")

/-- The number that is set for a key. -/
def number (settings : Settings) (key : Bytes) (default : Int) : Except Failure Int :=
  match settings.value? key with
  | none => .ok default
  | some value =>
    match Decimal.toWord? value.trim with
    | none => .error (badNumber key value.trim)
    | some word =>
      if word ≤ maxNumber then .ok word.toNat else .error (badNumber key value.trim)

/-- The directory of the store, seen from where git keeps the history. -/
def storagePath (settings : Settings) (gitDirectory : Bytes) : Bytes :=
  let path := settings.value (ascii "lfs.storage")
  if path.isEmpty then PathName.join gitDirectory (ascii "lfs")
  else if path.head? = some Ascii.slash then path
  else PathName.join gitDirectory path

/-- What the settings of a repository come to. -/
def configuration (settings : Settings) (gitDirectory : Bytes) : Configuration where
  storagePath := settings.storagePath gitDirectory
  fetchExclude := PathFilter.parseList (settings.value (ascii "lfs.fetchexclude"))
  jobs := settings.number (ascii "lfs.fsck.jobs") 1

end Settings

namespace Repository

/-- The settings in the settings file of a directory, if it has one. -/
def fileSettings (reader : SettingsReader) (directory : Bytes) : Audit Settings := do
  let path := PathName.join directory (ascii ".lfsconfig")
  if directory.isEmpty || !(← get).files.pathExists path then return []
  match reader (← Audit.inspect path) path with
  | .ok sections => pure (sections.flatMap SettingsSection.settings)
  | .error problem =>
    throw (.reported .badConfig (ascii "Cannot parse " ++ path ++ ascii ": " ++ problem))

/-- Reads all settings. -/
def loadConfiguration (repository : Repository) (reader : SettingsReader) :
    Audit Configuration := do
  let gitDirectory ← repository.gitDirectory
  let workTree ← repository.workTree
  let fromFile ← fileSettings reader workTree
  let fromGit ← repository.configuration
  pure ((fromFile ++ fromGit : Settings).configuration gitDirectory)

/-- What the settings come to, or why they cannot be read. -/
def consult (repository : Repository) (reader : SettingsReader) : StateM Session Configuration := do
  match ← (repository.loadConfiguration reader).run with
  | .ok configuration => pure configuration
  | .error failure => pure { loadFailure := some failure }

end Repository

end StoreAudit
