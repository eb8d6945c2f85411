import VaultSync.Text.Quoted
/-!
The commands of a password repository, and the operations that are fixed sequences of them.
-/

namespace VaultSync

/-- A command without a result of its own. -/
inductive PlainCommand
  /-- Stage every change, deletions included. -/
  | addAll
  | fetch (remote : String)
  | resetHard (target : String)
  | clone (url workTree : String)
  /-- Create a branch at the current commit without switching to it. -/
  | createBranch (name : String)
  /-- Abort a rebase in progress, if there is one. -/
  | rebaseAbort
deriving DecidableEq, Repr

/-- One command on a repository. -/
inductive Command
  | status
  | commit (message : String)
  /-- Fetch, then rebase the current branch on the remote's. -/
  | pull (remote : String)
  /-- Push a branch, the current one if none is named. -/
  | push (remote : String) (branch : Option String) (force : Bool)
  | plain (command : PlainCommand)
deriving DecidableEq, Repr

/-- The name that a failure of the command is reported under. -/
def PlainCommand.name : PlainCommand → String
  | addAll => "add"
  | fetch _ => "fetch"
  | resetHard _ => "reset"
  | clone .. => "clone"
  | createBranch _ => "branch"
  | rebaseAbort => "rebase --abort"

/-- The name that a failure of the command is reported under. -/
def Command.name : Command → String
  | status => "status"
  | commit _ => "commit"
  | pull _ => "pull"
  | push .. => "push"
  | plain command => command.name

def PlainCommand.describe : PlainCommand → String
  | addAll => "AddAll"
  | fetch remote => Text.recordText "Fetch" [("remote", Text.quote remote)] false
  | resetHard target => Text.recordText "ResetHard" [("target", Text.quote target)] false
  | clone url workTree =>
    Text.recordText "Clone" [("url", Text.quote url), ("work_tree", Text.quote workTree)] false
  | createBranch name => Text.recordText "CreateBranch" [("name", Text.quote name)] false
  | rebaseAbort => "RebaseAbort"

def Command.describe : Command → String
  | status => "Status"
  | commit message => Text.recordText "Commit" [("message", Text.quote message)] false
  | pull remote => Text.recordText "Pull" [("remote", Text.quote remote)] false
  | push remote branch force =>
    Text.recordText "Push"
      [("remote", Text.quote remote), ("branch", Text.quoteOption branch),
        ("force", if force then "true" else "false")] false
  | plain command => "Generic(" ++ command.describe ++ ")"

/-- What an operation is for. -/
inductive OperationKind
  | clone
  | pull
  | push
  | sync
  | resetToRemote
  | breakOutOfDetached
deriving DecidableEq, Repr

namespace OperationKind

def display : OperationKind → String
  | clone => "clone"
  | pull => "pull"
  | push => "push"
  | sync => "sync"
  | resetToRemote => "reset to remote"
  | breakOutOfDetached => "break out of detached state"

def tag : OperationKind → String
  | resetToRemote => "reset_to_remote"
  | breakOutOfDetached => "break_out_of_detached"
  | kind => kind.display

def describe : OperationKind → String
  | clone => "Clone"
  | pull => "Pull"
  | push => "Push"
  | sync => "Sync"
  | resetToRemote => "ResetToRemote"
  | breakOutOfDetached => "BreakOutOfDetached"

end OperationKind

/-- An ordered sequence of commands. -/
structure Operation where
  kind : OperationKind
  steps : List Command
deriving DecidableEq, Repr

namespace Operation

def clone (url workTree : String) : Operation :=
  ⟨.clone, [.plain (.clone url workTree)]⟩

def pull (remote : String) : Operation :=
  ⟨.pull, [.pull remote]⟩

def push (remote : String) : Operation :=
  ⟨.push, [.push remote none false]⟩

/-- Stage, commit if something changed, rebase on the remote, push. -/
def sync (remote message : String) : Operation :=
  ⟨.sync, [.plain .addAll, .status, .commit message, .pull remote, .push remote none false]⟩

/-- Give up the local state for that of a remote branch. Staging first makes new files part of what is
given up. -/
def resetToRemote (remote branch : String) : Operation :=
  ⟨.resetToRemote,
    [.plain .addAll, .plain (.fetch remote), .plain (.resetHard (remote ++ "/" ++ branch))]⟩

/-- Abort a stuck rebase and save the restored branch under another name on the remote. The abort comes
first: during a rebase the current commit is the remote's with the commits replayed so far. -/
def breakOutOfDetached (remote sideBranch : String) : Operation :=
  ⟨.breakOutOfDetached,
    [.plain .rebaseAbort, .plain (.createBranch sideBranch),
      .push remote (some sideBranch) false]⟩

def describe (operation : Operation) : String :=
  Text.recordText "SyncOperation"
    [("kind", operation.kind.describe),
      ("steps", "[" ++ String.intercalate ", " (operation.steps.map Command.describe) ++ "]")] true

end Operation

end VaultSync
