import VaultSync.Sync.Executor
/-!
Collaborators that work on a part of a larger state.
-/

namespace VaultSync

/-- A part of a state, which can be read and put in place. -/
structure Part (τ σ : Type) where
  get : τ → σ
  set : σ → τ → τ

namespace Part

variable {τ σ : Type}

def backend (part : Part τ σ) (inner : Backend σ) : Backend τ where
  perform command credential t :=
    let (reply, s) := inner.perform command credential (part.get t)
    (reply, part.set s t)

def hooks (part : Part τ σ) (inner : Hooks σ) : Hooks τ where
  onSuccess report t := part.set (inner.onSuccess report (part.get t)) t
  onError error t := part.set (inner.onError error (part.get t)) t

end Part

end VaultSync
