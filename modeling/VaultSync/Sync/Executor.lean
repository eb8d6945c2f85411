import VaultSync.Credential
import VaultSync.Reply
import VaultSync.Sync.Report
/-!
Running an operation. Its commands go to a backend one after the other, and what they report is folded
into a `Progress`, from which the outcome is read at the end. A failure is kept and the next command
runs all the same; only a rebase that stopped on conflicts ends the run early. A commit is left out
when the status before it saw nothing to record.
-/

namespace VaultSync

/-- What a command reports when it succeeds. -/
abbrev Command.Result : Command → Type
  | .status => StatusReport
  | .pull _ => RebaseStatus
  | .push .. => List RefUpdate
  | .commit _ | .plain _ => Unit

/-- Whether a command may talk to a remote, and so receives the credential. -/
def Command.takesCredential : Command → Bool
  | .status | .commit _ => false
  | .pull _ | .push .. | .plain _ => true

/-- Something that performs commands, with a state that they change. -/
structure Backend (σ : Type) where
  perform : (command : Command) → Credential → σ → Reply TransportError command.Result × σ

/-- What is told about the end of an operation. -/
structure Hooks (σ : Type) where
  onSuccess : SyncReport → σ → σ
  onError : SyncError → σ → σ

def Hooks.silent {σ : Type} : Hooks σ :=
  ⟨fun _ s => s, fun _ s => s⟩

/-- What is known after some commands of an operation. -/
structure Progress where
  /-- The entries to record by the last status that succeeded; none before there was one. -/
  changes : Option Nat
  /-- The latest failure. A later success does not clear it. -/
  failure : Option SyncError
  /-- Set when the remaining commands make no sense. -/
  halted : Bool
  commandsRun : Nat
  commitSkipped : Bool
  rebaseStatus : Option RebaseStatus
  refUpdates : List RefUpdate

namespace Progress

def start : Progress :=
  ⟨none, none, false, 0, false, none, []⟩

def fail (progress : Progress) (error : SyncError) : Progress :=
  { progress with failure := some error }

def pulled (progress : Progress) (status : RebaseStatus) : Progress :=
  let progress := { progress with rebaseStatus := some status }
  if status = .stopped then { progress.fail (.pull .rebaseFailed) with halted := true } else progress

/-- Takes in the ref updates of a push; each one that was rejected is a failure. -/
def pushed (progress : Progress) (updates : List RefUpdate) : Progress :=
  let errors := updates.filterMap RefUpdate.pushError?
  let progress := errors.foldl (fun p e => p.fail (.push e)) progress
  { progress with refUpdates := progress.refUpdates ++ updates }

def absorb (progress : Progress) (command : Command) :
    Reply TransportError command.Result → Progress
  | .error e => progress.fail (.command command.name e)
  | .crashed message => progress.fail (.task (Reply.crashDetail message))
  | .ok value =>
    match command, value with
    | .status, report => { progress with changes := some report.pending }
    | .pull _, status => progress.pulled status
    | .push .., updates => progress.pushed updates
    | .commit _, _ | .plain _, _ => progress

/-- Whether a command is left out: a commit with nothing to record. -/
def skips (progress : Progress) : Command → Bool
  | .commit _ => progress.changes = some 0
  | _ => false

def outcome (progress : Progress) (kind : OperationKind) : SyncOutcome :=
  match progress.failure with
  | none =>
    .completed ⟨kind, progress.commandsRun, progress.commitSkipped, progress.rebaseStatus,
      progress.refUpdates⟩
  | some error =>
    if error.isUserCancelled then .cancelled else .failed kind error error.root.message

end Progress

namespace Backend

variable {σ : Type}

def step (backend : Backend σ) (credential : Credential) (command : Command) (progress : Progress)
    (state : σ) : Progress × σ :=
  if progress.skips command then ({ progress with commitSkipped := true }, state)
  else
    let (reply, state) := backend.perform command credential state
    let progress := progress.absorb command reply
    ({ progress with commandsRun := progress.commandsRun + 1 }, state)

/-- Runs commands in order until one halts the operation. -/
def steps (backend : Backend σ) (credential : Credential) :
    List Command → Progress → σ → Progress × σ
  | [], progress, state => (progress, state)
  | command :: rest, progress, state =>
    if progress.halted then (progress, state)
    else
      let (progress, state) := backend.step credential command progress state
      backend.steps credential rest progress state

/-- Runs an operation and tells how it ended. A run that the user cancelled is not told. -/
def execute (backend : Backend σ) (hooks : Hooks σ) (operation : Operation)
    (credential : Credential) (state : σ) : SyncOutcome × σ :=
  let (progress, state) := backend.steps credential operation.steps .start state
  let outcome := progress.outcome operation.kind
  match outcome with
  | .completed report => (outcome, hooks.onSuccess report state)
  | .cancelled => (outcome, state)
  | .failed _ error _ => (outcome, hooks.onError error state)

end Backend

end VaultSync
