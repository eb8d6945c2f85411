import VaultSync.Sync.Failure
import VaultSync.Sync.Operation
/-!
What commands report, and how an operation ends.
-/

namespace VaultSync

/-- A summary of the work tree. -/
structure StatusReport where
  /-- Entries that differ between the last commit and the index or the work tree. -/
  changed : Nat
  /-- Tracked entries that are gone from the work tree. -/
  missing : Nat
  /-- Files that the index does not know. -/
  untracked : Nat
deriving DecidableEq, Repr

def StatusReport.clean : StatusReport := ⟨0, 0, 0⟩

def StatusReport.pending (report : StatusReport) : Nat :=
  report.changed + report.missing

/-- How the rebase half of a pull ended. -/
inductive RebaseStatus
  | ok
  | upToDate
  | fastForward
  /-- Conflicts halted the rebase, which is left in progress. -/
  | stopped
deriving DecidableEq, Repr

namespace RebaseStatus

def tag : RebaseStatus → String
  | ok => "OK"
  | upToDate => "UP_TO_DATE"
  | fastForward => "FAST_FORWARD"
  | stopped => "STOPPED"

def describe : RebaseStatus → String
  | ok => "Ok"
  | upToDate => "UpToDate"
  | fastForward => "FastForward"
  | stopped => "Stopped"

end RebaseStatus

/-- What the remote made of one ref update. -/
inductive RefUpdateStatus
  | ok
  | upToDate
  | rejectedNonFastForward
  | rejectedNoDelete
  | rejectedRemoteChanged
  | nonExisting
  | notAttempted
  | rejectedOtherReason
deriving DecidableEq, Repr

def RefUpdateStatus.name : RefUpdateStatus → String
  | ok => "OK"
  | upToDate => "UP_TO_DATE"
  | rejectedNonFastForward => "REJECTED_NONFASTFORWARD"
  | rejectedNoDelete => "REJECTED_NODELETE"
  | rejectedRemoteChanged => "REJECTED_REMOTE_CHANGED"
  | nonExisting => "NON_EXISTING"
  | notAttempted => "NOT_ATTEMPTED"
  | rejectedOtherReason => "REJECTED_OTHER_REASON"

/-- The result of a push for one ref. -/
structure RefUpdate where
  remoteRef : String
  status : RefUpdateStatus
  message : Option String
deriving DecidableEq, Repr

namespace RefUpdate

/-- The message by which a remote says that it refuses to lose commits. -/
def nonFastForwardMessage : String := "non-fast-forward"

/-- The push failure that an update stands for, if it is one. -/
def pushError? (update : RefUpdate) : Option PushError :=
  match update.status with
  | .ok | .upToDate => none
  | .rejectedNonFastForward => some .nonFastForward
  | .rejectedOtherReason =>
    match update.message with
    | some message =>
      if message = nonFastForwardMessage then some .remoteRejected else some (.generic message)
    | none => some (.generic update.status.name)
  | .rejectedNoDelete | .rejectedRemoteChanged | .nonExisting | .notAttempted =>
    some (.generic update.status.name)

end RefUpdate

def PushError.describe : PushError → String
  | nonFastForward => "NonFastForward"
  | remoteRejected => "RemoteRejected"
  | generic message => "Generic(" ++ Text.quote message ++ ")"

/-- What an operation that succeeded did. -/
structure SyncReport where
  operation : OperationKind
  commandsRun : Nat
  commitSkipped : Bool
  rebaseStatus : Option RebaseStatus
  refUpdates : List RefUpdate
deriving DecidableEq, Repr

/-- How an operation ends. -/
inductive SyncOutcome
  | completed (report : SyncReport)
  /-- The user abandoned authentication, which is no error. -/
  | cancelled
  /-- The cause is the message of the specific failure under the error. -/
  | failed (operation : OperationKind) (error : SyncError) (cause : String)

namespace SyncOutcome

def isSuccess : SyncOutcome → Bool
  | completed _ => true
  | _ => false

/-- The exit code of a process that ran the operation. -/
def exitCode : SyncOutcome → Nat
  | completed _ => 0
  | cancelled => 130
  | failed .. => 1

/-- Whether the local store must no longer be taken as published: its commits are kept, but the remote
does not have them. -/
def rollbackRequested : SyncOutcome → Bool
  | failed _ error _ => error.isRejectedPush
  | _ => false

end SyncOutcome

end VaultSync
