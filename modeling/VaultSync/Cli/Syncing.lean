import VaultSync.Cli.Arguments
import VaultSync.Cli.Setup
import VaultSync.Sync.Cleanup
import VaultSync.Sync.Service
/-!
The commands that deal with the remote: each one is an operation on the store after the user has
authenticated at the terminal.
-/

namespace VaultSync.Cli

def Machine.report (json : Bool) (outcome : SyncOutcome) (m : Machine) : Machine :=
  if json then m.print (outcome.toJson.pretty ++ "\n")
  else (m.print outcome.print.out).complain outcome.print.err

/-- Writes a headline, unless the outcome is reported as JSON. -/
def Machine.headline (json : Bool) (text : String) (m : Machine) : Machine :=
  if json then m else m.print (Printed.header text)

/-- The repository at the store, with commits by the author that is configured. -/
def storeBackend (config : Config) (dataDir : String) : Backend Machine :=
  Machine.hostPart.backend <|
    Git.Host.backend (config.storeDir dataDir)
      (Git.Person.ofParts? config.author.name config.author.email)

/-- Authenticates, runs an operation and reports its outcome, which gives the exit code. -/
def runOperation (keygen : Ssh.Keygen) (dataDir : String) (config : Config) (json : Bool)
    (hooks : Hooks Machine) (operation : Operation) (m : Machine) : Finish :=
  match executeAfterAuthentication (Machine.services keygen) (storeBackend config dataDir) hooks
      (config.authRequest dataDir) operation m with
  | (.error e, m) => (.error e, m)
  | (.ok outcome, m) => (.ok outcome.exitCode, m.report json outcome)

/-- Refuses to clone over what is there. A directory without entries is no obstacle. -/
def checkVacant (storeDir : String) (files : Files) : Except VaultError Unit :=
  match files.stat storeDir with
  | .error _ => .ok ()
  | .ok (.file ..) => .error (.file .notDirectory)
  | .ok .directory =>
    match files.resolve storeDir with
    | .error e => .error (.file e)
    | .ok loc =>
      if (files.children loc).isEmpty then .ok ()
      else
        .error (.invalidConfig (storeDir ++ " already exists and is not empty.\n\n  " ++
          "Remove it or point 'repository.path' somewhere else."))

def cloneStore (keygen : Ssh.Keygen) (dataDir url : String) (json : Bool) (m : Machine) : Finish :=
  match Config.load m.files dataDir with
  | .error e => (.error e, m)
  | .ok config =>
    let storeDir := config.storeDir dataDir
    match checkVacant storeDir m.files with
    | .error e => (.error e, m)
    | .ok () =>
      runOperation keygen dataDir config json (Machine.filesPart.hooks (cloneCleanup storeDir))
        (.clone url storeDir) (m.headline json ("Cloning " ++ url))

def checkStore (storeDir : String) (files : Files) : Except VaultError Unit :=
  if files.has (Path.join storeDir ".git") then .ok ()
  else
    .error (.invalidConfig ("No password store at " ++ storeDir ++ "\n\n  " ++
      "Clone one first: passync clone <url>"))

def sideBranch (now : Moment) (branch : String) : String :=
  "conflicting-" ++ branch ++ "-" ++ now.compact

def StoreTask.operation (now : Moment) (config : Config) : StoreTask → Operation
  | pull => .pull config.repository.remote
  | push => .push config.repository.remote
  | sync => .sync config.repository.remote config.author.commitMessage
  | reset => .resetToRemote config.repository.remote config.repository.branch
  | unstick => .breakOutOfDetached config.repository.remote (sideBranch now config.repository.branch)

/-- What is said before a task: where local work is saved to. -/
def StoreTask.notice (now : Moment) (config : Config) : StoreTask → String
  | unstick =>
    Printed.warning ("Saving local work to '" ++ sideBranch now config.repository.branch ++ "'")
  | pull | push | sync | reset => ""

def onStore (keygen : Ssh.Keygen) (now : Moment) (dataDir : String) (task : StoreTask) (json : Bool)
    (m : Machine) : Finish :=
  match Config.load m.files dataDir with
  | .error e => (.error e, m)
  | .ok config =>
    match checkStore (config.storeDir dataDir) m.files with
    | .error e => (.error e, m)
    | .ok () =>
      let operation := task.operation now config
      let m := if json then m else m.print (task.notice now config)
      runOperation keygen dataDir config json .silent operation
        (m.headline json ("passync " ++ operation.kind.display))

end VaultSync.Cli
