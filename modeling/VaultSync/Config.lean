import VaultSync.Credential
import VaultSync.Files
import VaultSync.Toml.Parser
import VaultSync.Toml.Printer
/-!
The configuration of a vault, a TOML file in its data directory. Every key has a default, and unknown
keys say nothing. A configuration is loaded only if its format is not newer than this build's, the
names that a repository cannot do without are there, and the remote is a name.
-/

namespace VaultSync

/-- Where the store lies and what it is synced with. -/
structure RepositoryConfig where
  path : String
  remote : String
  branch : String
deriving DecidableEq, Repr

/-- How the remote is reached. -/
structure ConnectionConfig where
  mode : String
  username : String
  sshKey : String
deriving DecidableEq, Repr

/-- Who commits, and with which message. -/
structure AuthorConfig where
  name : String
  email : String
  commitMessage : String
deriving DecidableEq, Repr

/-- The configuration of a vault. -/
structure Config where
  formatVersion : Nat
  repository : RepositoryConfig
  connection : ConnectionConfig
  author : AuthorConfig
deriving DecidableEq, Repr

def Config.default : Config where
  formatVersion := 1
  repository := ⟨"store", "origin", "master"⟩
  connection := ⟨ConnectionMode.sshKey.tag, "git", ".ssh_key"⟩
  author := ⟨"passync", "passync@localhost", "[passync] sync"⟩

namespace Config

/-- The name of the configuration in a data directory. -/
def fileName : String := "config.toml"

def currentFormat : Nat := 1

/-! ### Reading -/

/-- The values of a section's keys. A section is a table, or an array with the values in order. -/
def sectionValues? (keys : List String) : Option Toml.Value → Option (List (Option Toml.Value))
  | none => some (keys.map fun _ => none)
  | some (.table _ members) => some (keys.map fun key => members.lookup key)
  | some (.array items) => some (positional items)
  | some (.tables elements) => some (positional (elements.map (.table .header)))
  | some _ => none
where
  positional (items : List Toml.Value) : List (Option Toml.Value) :=
    (List.range keys.length).map fun i => items[i]?

/-- A text, or the default where there is no value. -/
def textOr? (default : String) : Option Toml.Value → Option String
  | none => some default
  | some (.string s) => some s
  | some _ => none

def wordLimit : Int := 4294967296

/-- A number of 32 bits, or the default where there is no value. -/
def wordOr? (default : Nat) : Option Toml.Value → Option Nat
  | none => some default
  | some (.integer n) => if 0 ≤ n ∧ n < wordLimit then some n.toNat else none
  | some _ => none

def texts? (keys : List String) (defaults : String × String × String) (value : Option Toml.Value) :
    Option (String × String × String) := do
  match ← sectionValues? keys value with
  | [a, b, c] =>
    pure (← textOr? defaults.1 a, ← textOr? defaults.2.1 b, ← textOr? defaults.2.2 c)
  | _ => none

def ofTable? (table : Toml.Table) : Option Config := do
  let d := Config.default
  let formatVersion ← match ← sectionValues? ["format_version"] (table.lookup "passync") with
    | [v] => wordOr? d.formatVersion v
    | _ => none
  let (path, remote, branch) ← texts? ["path", "remote", "branch"]
    (d.repository.path, d.repository.remote, d.repository.branch) (table.lookup "repository")
  let (mode, username, sshKey) ← texts? ["mode", "username", "ssh_key"]
    (d.connection.mode, d.connection.username, d.connection.sshKey) (table.lookup "connection")
  let (name, email, commitMessage) ← texts? ["author_name", "author_email", "commit_message"]
    (d.author.name, d.author.email, d.author.commitMessage) (table.lookup "git")
  pure ⟨formatVersion, ⟨path, remote, branch⟩, ⟨mode, username, sshKey⟩,
    ⟨name, email, commitMessage⟩⟩

/-- The names that must not be blank, in the order in which they are checked. -/
def required (config : Config) : List (String × String) :=
  [("repository.remote", config.repository.remote), ("repository.branch", config.repository.branch),
    ("git.author_name", config.author.name), ("git.author_email", config.author.email)]

def validate (config : Config) : Except VaultError Unit :=
  match config.required.find? fun f => (Text.trim f.2).isEmpty with
  | some (field, _) => .error (.invalidConfig s!"'{field}' must not be empty")
  | none =>
    if config.repository.remote.toList.contains '/' then
      .error (.invalidConfig
        s!"'repository.remote' must be a remote name, not a URL or path: {config.repository.remote}")
    else .ok ()

def ofText (text : String) : Except VaultError Config :=
  match (Toml.parse? text).bind ofTable? with
  | none => .error (.invalidConfig s!"Failed to parse {fileName}")
  | some config =>
    if currentFormat < config.formatVersion then
      .error (.formatVersionTooNew config.formatVersion currentFormat)
    else do
      config.validate
      pure config

/-- The path of the configuration in a data directory. -/
def pathIn (dataDir : String) : String :=
  Path.join dataDir fileName

def load (files : Files) (dataDir : String) : Except VaultError Config :=
  let path := pathIn dataDir
  if files.has path then
    match files.read path with
    | .error e => .error (.file e)
    | .ok content =>
      match String.fromUTF8? content with
      | none => .error (.file .notText)
      | some text => ofText text
  else .error (.invalidConfig s!"{path} not found. Run 'passync init' first.")

/-! ### Writing -/

def toText (config : Config) : String :=
  let s := Toml.writeString
  Toml.writeSections
    [("passync", [("format_version", toString config.formatVersion)]),
      ("repository", [("path", s config.repository.path), ("remote", s config.repository.remote),
        ("branch", s config.repository.branch)]),
      ("connection", [("mode", s config.connection.mode),
        ("username", s config.connection.username), ("ssh_key", s config.connection.sshKey)]),
      ("git", [("author_name", s config.author.name), ("author_email", s config.author.email),
        ("commit_message", s config.author.commitMessage)])]

/-- Writes the configuration of a data directory, which is made if it is missing. Directories that were
made stay even if the file cannot be written. -/
def save (config : Config) (files : Files) (dataDir : String) : Except VaultError Unit × Files :=
  match files.createDirAll dataDir with
  | (.error e, files) => (.error (.file e), files)
  | (.ok (), files) =>
    match files.write (pathIn dataDir) config.toText.toUTF8 with
    | .error e => (.error (.file e), files)
    | .ok files => (.ok (), files)

/-! ### What it says -/

/-- The work tree of the store. A path that is not absolute hangs off the data directory. -/
def storeDir (config : Config) (dataDir : String) : String :=
  Path.join dataDir config.repository.path

def sshKeyPath (config : Config) (dataDir : String) : String :=
  Path.join dataDir config.connection.sshKey

def connectionMode (config : Config) : ConnectionMode :=
  .ofTag config.connection.mode

def authRequest (config : Config) (dataDir : String) : AuthRequest :=
  ⟨config.connectionMode, config.connection.username, config.sshKeyPath dataDir⟩

end Config

end VaultSync
