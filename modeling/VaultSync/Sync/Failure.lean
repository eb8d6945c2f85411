/-!
Failures of a sync and the causes behind them. A transport failure may wrap a lower one, so that a
failure is the head of a chain of causes. Two questions are asked of a chain: did the user abandon
authentication, and which failure is the specific one under the wrappers. Both look at a bounded part
of the chain.
-/

namespace VaultSync

/-- Why a transport session was torn down. -/
inductive DisconnectReason
  | authCancelledByUser
  | connectionLost
  | protocolError
deriving DecidableEq, Repr

def DisconnectReason.message : DisconnectReason → String
  | authCancelledByUser => "auth cancelled by user"
  | connectionLost => "connection lost"
  | protocolError => "protocol error"

/-- A pull that did not reach its end. -/
inductive PullError
  | rebaseFailed
deriving DecidableEq, Repr

def PullError.message : PullError → String
  | rebaseFailed =>
    "Rebase stopped on conflicts\n\n  " ++
      "Local and remote changes touch the same entries.\n  " ++
      "Run 'passync unstick' to save local work to a side branch on the remote.\n  " ++
      "Once it is saved there, 'passync reset' aligns the store with the remote."

/-- A ref update that the remote did not take. -/
inductive PushError
  | nonFastForward
  | remoteRejected
  | generic (message : String)
deriving DecidableEq, Repr

def PushError.message : PushError → String
  | nonFastForward =>
    "Push rejected: the remote has changes you do not have (non-fast-forward)\n\n  " ++
      "Run 'passync pull' first, then push again."
  | remoteRejected =>
    "Push rejected by the remote (non-fast-forward)\n\n  " ++
      "The remote refused the update; pull and retry."
  | generic message => s!"Push failed: {message}"

mutual

/-- A failure of the version-control layer. The first three wrap the failure below them. -/
inductive TransportError
  | remote (message : String) (source : Cause)
  | internal (message : String) (source : Cause)
  | authExhausted (source : Cause)
  | disconnected (reason : DisconnectReason)
  | failed (message : String)

/-- A failure of one step of a sync. -/
inductive SyncError
  | pull (error : PullError)
  | push (error : PushError)
  | command (name : String) (source : TransportError)
  | task (detail : String)

/-- One link of a chain of causes. The last two are failures of a kind that nothing here knows. -/
inductive Cause
  | transport (error : TransportError)
  | sync (error : SyncError)
  | pull (error : PullError)
  | push (error : PushError)
  | file (message : String)
  | repository
  | foreign (message : String)
  | foreignOver (message : String) (source : Cause)

end

/-- Whether a transport failure only wraps a more specific one. -/
def TransportError.isWrapper : TransportError → Bool
  | remote .. | internal .. | authExhausted _ => true
  | disconnected _ | failed _ => false

def TransportError.source? : TransportError → Option Cause
  | remote _ source | internal _ source | authExhausted source => some source
  | disconnected _ | failed _ => none

def TransportError.message : TransportError → String
  | remote message _ | internal message _ | failed message => message
  | authExhausted _ => "Exhausted available authentication methods"
  | disconnected reason => s!"Disconnected: {reason.message}"

def SyncError.message : SyncError → String
  | pull error => error.message
  | push error => error.message
  | command name source => s!"{name} failed: {source.message}"
  | task detail => s!"Background task failed: {detail}"

namespace Cause

/-- The message of a failure of the repository itself, of which no more is known. -/
def repositoryMessage : String := "the repository could not complete the step"

def message : Cause → String
  | transport error => error.message
  | sync error => error.message
  | pull error => error.message
  | push error => error.message
  | file message | foreign message | foreignOver message _ => message
  | repository => repositoryMessage

def source? : Cause → Option Cause
  | transport error => error.source?
  | sync (.pull error) => some (pull error)
  | sync (.push error) => some (push error)
  | sync (.command _ source) => some (transport source)
  | sync (.task _) => none
  | foreignOver _ source => some source
  | pull _ | push _ | file _ | repository | foreign _ => none

/-- The first links of a chain, starting with the given one, at most `limit` of them. -/
def chain (limit : Nat) (cause : Cause) : List Cause :=
  match limit with
  | 0 => []
  | limit + 1 =>
    cause :: match cause.source? with
      | none => []
      | some source => source.chain limit

/-- How many causes below the outermost failure are looked at. -/
def maxDepth : Nat := 32

/-- The link that says that the user abandoned authentication. -/
def isCancellation : Cause → Bool
  | transport (.disconnected .authCancelledByUser) => true
  | _ => false

/-- Whether the part of the chain that is looked at says that the user abandoned authentication. -/
def isUserCancelled (cause : Cause) : Bool :=
  (cause.chain (maxDepth + 1)).any isCancellation

/-- A link that only wraps the one below. -/
def isWrapper : Cause → Bool
  | transport error => error.isWrapper
  | _ => false

/-- The first link that is no wrapper, if one is reached among the first `limit` links. -/
def rootWithin (limit : Nat) (cause : Cause) : Option Cause :=
  (cause.chain limit).find? fun link => !link.isWrapper

/-- The specific failure: the first link under the wrappers, or the outermost failure itself if
wrappers are all that is looked at. -/
def root (cause : Cause) : Cause :=
  (cause.rootWithin (maxDepth + 1)).getD cause

end Cause

namespace SyncError

def isUserCancelled (error : SyncError) : Bool :=
  (Cause.sync error).isUserCancelled

/-- The specific failure: that of the transport failure for a command, the error itself otherwise. -/
def root : SyncError → Cause
  | command _ source => (Cause.transport source).root
  | error => .sync error

/-- A rejected push leaves local commits that the remote does not have. -/
def isRejectedPush : SyncError → Bool
  | push _ => true
  | _ => false

end SyncError

end VaultSync
