import VaultSync.Proofs.Auth.Dialogue
import VaultSync.Sync.Service

/-! Properties of the state that every use of a collaborator keeps. Authentication and operations only use
their collaborators, so what each use keeps holds at the end of a run, however it ends. -/
namespace VaultSync

variable {σ : Type} {holds : σ → Prop}

/-! ### Authentication -/

namespace AuthServices

/-- A property that is kept by whatever authentication with a key file does. -/
structure Keeps (services : AuthServices σ) (keyPath : String) (holds : σ → Prop) : Prop where
  ask : ∀ prompt s, holds s → holds (services.ask prompt s).2
  choose : ∀ s, holds s → holds (services.choose s).2
  provision : ∀ choice s, holds s → holds (services.provision choice keyPath s).2
  isEncrypted : ∀ s, holds s → holds (services.isEncrypted keyPath s).2
  verify : ∀ secret s, holds s → holds (services.verify keyPath secret s).2

namespace Keeps

variable {services : AuthServices σ} {keyPath : String} {s : σ}

theorem ensureKey (h : services.Keeps keyPath holds) (hStart : holds s) :
    holds (services.ensureKey keyPath s).2 := by
  -- the same induction as for the log: a round that goes on has used some of the supply
  induction hSupply : services.supply s using Nat.strongRecOn generalizing s with
  | ind supply ih =>
      subst hSupply
      rw [ensureKey_eq]
      split
      · exact hStart
      · have hChosen := h.choose s hStart
        rcases hChoose : services.choose s with ⟨answer, s₁⟩
        rw [hChoose] at hChosen
        cases answer with
        | error e => exact hChosen
        | ok choice =>
            dsimp only
            split
            · exact hChosen
            · rename_i hStays
              have hProvided := h.provision choice s₁ hChosen
              rcases hProvision : services.provision choice keyPath s₁ with ⟨done, s₂⟩
              rw [hProvision] at hProvided
              cases done with
              | error e => exact hProvided
              | ok =>
                  have hLess : services.supply s₂ < services.supply s :=
                    Nat.lt_of_le_of_lt (services.provision_le _ _ _ _ hProvision)
                      (services.choose_lt _ _ _ hChoose hStays)
                  exact ih _ hLess hProvided rfl

theorem unlock (h : services.Keeps keyPath holds) (again : Bool) (hStart : holds s) :
    holds (services.unlock keyPath again s).2 := by
  induction hSupply : services.supply s using Nat.strongRecOn generalizing s again with
  | ind supply ih =>
      subst hSupply
      rw [unlock_eq]
      have hAsked := h.ask (passphrasePrompt keyPath again) s hStart
      rcases hAsk : services.ask (passphrasePrompt keyPath again) s with ⟨answer, s₁⟩
      rw [hAsk] at hAsked
      rcases answer with e | (_ | secret)
      · exact hAsked
      · exact hAsked
      · have hVerified := h.verify secret s₁ hAsked
        dsimp only
        rcases hVerify : services.verify keyPath secret s₁ with ⟨verdict, s₂⟩
        rw [hVerify] at hVerified
        rcases verdict with (_ | _) | e | message
        · have hLess : services.supply s₂ < services.supply s :=
            Nat.lt_of_le_of_lt (services.verify_le _ _ _ _ _ hVerify) (services.ask_lt _ _ _ _ hAsk)
          exact ih _ hLess true hVerified rfl
        · exact hVerified
        · exact hVerified
        · exact hVerified

theorem resolveKey {request : AuthRequest} (h : services.Keeps request.keyPath holds) (hStart : holds s) :
    holds (services.resolveKey request s).2 := by
  have hFound := h.ensureKey hStart
  rw [AuthServices.resolveKey]
  generalize services.ensureKey request.keyPath s = found at hFound ⊢
  rcases found with ⟨e | (_ | _), s₁⟩
  · exact hFound
  · exact hFound
  · have hChecked := h.isEncrypted s₁ hFound
    dsimp only
    generalize services.isEncrypted request.keyPath s₁ = checked at hChecked ⊢
    rcases checked with ⟨(_ | _) | e | message, s₂⟩
    · exact hChecked
    · have hUnlocked := h.unlock false hChecked
      dsimp only
      generalize services.unlock request.keyPath false s₂ = unlocked at hUnlocked ⊢
      rcases unlocked with ⟨e | (_ | secret), s₃⟩ <;> exact hUnlocked
    · exact hChecked
    · exact hChecked

/-- Resolution keeps what the services keep. -/
theorem resolve {request : AuthRequest} (h : services.Keeps request.keyPath holds) (hStart : holds s) :
    holds (services.resolve request s).2 := by
  rw [AuthServices.resolve]
  split
  · exact h.resolveKey hStart
  · have hAsked := h.ask (passwordPrompt request.username) s hStart
    rw [resolvePassword]
    generalize services.ask (passwordPrompt request.username) s = asked at hAsked ⊢
    rcases asked with ⟨e | (_ | secret), s₁⟩ <;> exact hAsked

end Keeps

end AuthServices

/-! ### Operations -/

variable {backend : Backend σ} {credential : Credential} {s : σ}

namespace Backend

/-- One command keeps what performing it keeps. -/
theorem step_keeps {command : Command} (h : ∀ s, holds s → holds (backend.perform command credential s).2)
    (progress : Progress) (hStart : holds s) : holds (backend.step credential command progress s).2 := by
  cases hSkips : progress.skips command with
  | true => simpa [step, hSkips] using hStart
  | false => simpa [step, hSkips] using h s hStart

/-- A run keeps what performing each of its commands keeps. -/
theorem steps_keeps {steps : List Command}
    (h : ∀ command ∈ steps, ∀ s, holds s → holds (backend.perform command credential s).2)
    (progress : Progress) (hStart : holds s) : holds (backend.steps credential steps progress s).2 := by
  induction steps generalizing progress s with
  | nil => exact hStart
  | cons command steps ih =>
      have hRest := fun other hOther => h other (List.mem_cons_of_mem command hOther)
      rw [Backend.steps]
      split
      · exact hStart
      · exact ih hRest _ (step_keeps (h command List.mem_cons_self) progress hStart)

/-- An execution keeps what its commands and its hooks keep. -/
theorem execute_keeps {hooks : Hooks σ} {operation : Operation}
    (h : ∀ command ∈ operation.steps, ∀ s, holds s → holds (backend.perform command credential s).2)
    (hSuccess : ∀ report s, holds s → holds (hooks.onSuccess report s))
    (hError : ∀ error s, holds s → holds (hooks.onError error s)) (hStart : holds s) :
    holds (backend.execute hooks operation credential s).2 := by
  have hSteps := steps_keeps h .start hStart
  rw [Backend.execute]
  dsimp only
  split
  · exact hSuccess _ _ hSteps
  · exact hSteps
  · exact hError _ _ hSteps

end Backend

/-- What authentication, the commands of an operation and the hooks each keep holds at the end of a run,
whether it fails, is cancelled or succeeds. -/
theorem executeAfterAuthentication_keeps {services : AuthServices σ} {hooks : Hooks σ} {request : AuthRequest}
    {operation : Operation} (hServices : services.Keeps request.keyPath holds)
    (h : ∀ credential, ∀ command ∈ operation.steps, ∀ s, holds s →
      holds (backend.perform command credential s).2)
    (hSuccess : ∀ report s, holds s → holds (hooks.onSuccess report s))
    (hError : ∀ error s, holds s → holds (hooks.onError error s)) (hStart : holds s) :
    holds (executeAfterAuthentication services backend hooks request operation s).2 := by
  have hResolved := hServices.resolve hStart
  rw [executeAfterAuthentication, AuthServices.resolveThen]
  generalize services.resolve request s = resolved at hResolved ⊢
  rcases resolved with ⟨e | (credential | _), s₁⟩
  · exact hResolved
  · exact Backend.execute_keeps (h credential) hSuccess hError hResolved
  · exact hResolved

end VaultSync
