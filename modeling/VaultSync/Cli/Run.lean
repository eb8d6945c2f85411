import VaultSync.Cli.Syncing
/-!
One run of the program on a machine.
-/

namespace VaultSync.Cli

/-- What a run finds around it. -/
structure Surroundings where
  keygen : Ssh.Keygen
  now : Moment
  /-- The data directory that the environment presets. -/
  dataDir : Option String
  /-- The home directory of the user. -/
  home : Option String

namespace Surroundings

def defaultDataDir (around : Surroundings) : String :=
  match around.home with
  | some home => Path.join home ".local/share/passync"
  | none => ".passync"

end Surroundings

def onKeys (now : Moment) (store : KeyStore) : KeysTask → Machine → Finish
  | .importFile file => importKeyFile store file
  | .generate => generateKey now store
  | .list => listKeys store
  | .reveal id => revealKey store id
  | .remove id => removeKey store id

def perform (around : Surroundings) (dataDir : String) (json : Bool) : Task → Machine → Finish
  | .setUp mode username noKey => setUp around.now dataDir mode username noKey
  | .keys task => onKeys around.now (.inData dataDir) task
  | .insert name => insertEntry dataDir name
  | .reveal name => revealEntry dataDir name
  | .clone url => cloneStore around.keygen dataDir url json
  | .store task => onStore around.keygen around.now dataDir task json

def failureCode : Nat := 1

/-- The exit code of a command line that makes no sense. -/
def misuseCode : Nat := 2

def conclude : Finish → Nat × Machine
  | (.ok code, m) => (code, m)
  | (.error e, m) => (failureCode, m.complain (Printed.error ("Error: " ++ e.message)))

def versionText : String := "passync 0.3.0\n"

def usage : String :=
  "Encrypted password store with authenticated git sync.\n\n" ++
    "Usage: passync [OPTIONS] <COMMAND>\n\n" ++
    "Commands:\n" ++
    "  init      Create the data directory, default config and a first key\n" ++
    "  keys      Manage encryption keys\n" ++
    "  insert    Encrypt a secret read from stdin into the store\n" ++
    "  show      Decrypt an entry and print it\n" ++
    "  clone     Clone the remote password store\n" ++
    "  pull      Fetch and rebase onto the remote branch\n" ++
    "  push      Push local commits\n" ++
    "  sync      Commit local changes, rebase onto the remote and push\n" ++
    "  reset     Discard local state and match the remote branch\n" ++
    "  unstick   Save a stuck rebase to a side branch on the remote and abort it\n" ++
    "  help      Print this message\n\n" ++
    "Options:\n" ++
    "      --data-dir <DATA_DIR>  Data directory holding config.toml, keys/ and the store\n" ++
    "  -v, --verbose              Verbose output\n" ++
    "      --json                 Print operation results as JSON\n" ++
    "  -h, --help                 Print help\n" ++
    "  -V, --version              Print version\n"

/-- Runs a command line on a machine: an exit code, and what became of the machine. -/
def run (around : Surroundings) (args : List String) (m : Machine) : Nat × Machine :=
  match readArguments around.dataDir args with
  | .error .help => (0, m.print usage)
  | .error .version => (0, m.print versionText)
  | .error .misuse => (misuseCode, m.complain usage)
  | .ok invocation =>
    let dataDir := invocation.dataDir.getD around.defaultDataDir
    conclude (perform around dataDir invocation.json invocation.task m)

end VaultSync.Cli
