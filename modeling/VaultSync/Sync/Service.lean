import VaultSync.Auth.Resolver
import VaultSync.Sync.Executor
/-!
Authentication in front of an operation: no command runs before a credential is there.
-/

namespace VaultSync

/-- Authenticates, then runs one operation with the credential. A user who leaves at a question has
cancelled the operation. -/
def executeAfterAuthentication {σ : Type} (services : AuthServices σ) (backend : Backend σ)
    (hooks : Hooks σ) (request : AuthRequest) (operation : Operation) (s : σ) :
    Except VaultError SyncOutcome × σ :=
  match services.resolveThen request (backend.execute hooks operation) s with
  | (.error e, s) => (.error e, s)
  | (.ok outcome, s) => (.ok (outcome.getD .cancelled), s)

end VaultSync
