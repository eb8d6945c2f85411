import VaultSync.Proofs.Sync.Causes
import VaultSync.Proofs.Sync.Outcome
import VaultSync.Sync.Script

/-! When a cancellation is told as one. The failure of a command wraps its transport failure, so the walk
that looks for a cancellation sees one link less of the transport chain than the walk that looks for the
specific failure. The two agree but for a cancellation under exactly as many wrappers as the second walk
takes off. -/
namespace VaultSync

namespace SyncError

/-- A cancellation under a failed command is seen when it lies under fewer wrappers than the walk is
deep: the failure itself is the first link that is looked at. -/
theorem isUserCancelled_command {name : String} {source : TransportError} {wrappers : Nat}
    (h : Cause.Wraps wrappers (.transport source) Cause.cancellation) :
    (command name source).isUserCancelled = decide (wrappers < Cause.maxDepth) := by
  have hChain : (Cause.sync (command name source)).chain (Cause.maxDepth + 1) =
      Cause.sync (command name source) :: (Cause.transport source).chain Cause.maxDepth := rfl
  rw [isUserCancelled, Cause.isUserCancelled, hChain, List.any_cons, Cause.any_isCancellation_chain h]
  rfl

/-- Only the failure of a command can have a cancellation for its specific failure. -/
theorem root_eq_cancellation_iff {error : SyncError} : error.root = Cause.cancellation ↔
    ∃ name source, error = command name source ∧
      ∃ wrappers ≤ Cause.maxDepth, Cause.Wraps wrappers (.transport source) Cause.cancellation := by
  cases error with
  | command name source => simp [root, Cause.root_eq_cancellation_iff]
  | pull error => simp [root, Cause.cancellation]
  | push error => simp [root, Cause.cancellation]
  | task detail => simp [root, Cause.cancellation]

end SyncError

variable {σ : Type} (backend : Backend σ) (credential : Credential)

/-- A run whose last failure has a cancellation for its specific failure was failed by a command, with at
most as many wrappers as are taken off. With fewer of them it is cancelled and no hook is told. With
exactly as many the cancellation is not seen: the run is told as failed, and its cause is that very
cancellation. -/
theorem execute_cancelled_within_depth (hooks : Hooks σ) (operation : Operation) (state : σ)
    (failure : SyncError)
    (hLast : ((backend.recorded.execute hooks.recorded operation credential
      (.start state)).2.calls.flatMap Call.failures).getLast? = some failure)
    (hRoot : failure.root = Cause.cancellation) :
    let run := (backend.recorded.execute hooks.recorded operation credential (.start state)).2
    let outcome := (backend.execute hooks operation credential state).1
    ∃ name source wrappers, failure = .command name source ∧ wrappers ≤ Cause.maxDepth ∧
      Cause.Wraps wrappers (.transport source) Cause.cancellation ∧
      (failure.isUserCancelled = true ↔ wrappers < Cause.maxDepth) ∧
      (wrappers < Cause.maxDepth → outcome = .cancelled ∧ run.log = run.calls.map .called) ∧
      (wrappers = Cause.maxDepth →
        outcome = .failed operation.kind failure "Disconnected: auth cancelled by user" ∧
          run.log = run.calls.map .called ++ [.failed failure]) := by
  dsimp only
  obtain ⟨name, source, rfl, wrappers, hDepth, hWraps⟩ := SyncError.root_eq_cancellation_iff.1 hRoot
  obtain ⟨slots, -, hEntries, hCalls, -, hDecided⟩ := backend.execute_told credential hooks operation state
  have hOutcome := hDecided _ (hCalls ▸ hLast)
  have hSeen := @SyncError.isUserCancelled_command name source wrappers hWraps
  refine ⟨name, source, wrappers, rfl, hDepth, hWraps, by simp [hSeen], fun hLess => ?_, fun hFull => ?_⟩
  · rw [hSeen, if_pos (decide_eq_true hLess)] at hOutcome
    rw [hOutcome, hEntries, hCalls, hOutcome]
    simp [SyncOutcome.tellings]
  · rw [hSeen, if_neg (by simp [hFull]), hRoot] at hOutcome
    rw [hOutcome, hEntries, hCalls, hOutcome]
    exact ⟨rfl, rfl⟩

/-- A cancellation under a number of wrappers. -/
def TransportError.buried : Nat → TransportError
  | 0 => .disconnected .authCancelledByUser
  | wrappers + 1 => .remote "session closed" (.transport (buried wrappers))

/-- A script whose first pull fails. -/
def Script.pullFails (error : TransportError) : Script where
  files := ⟨[], []⟩
  answers := []
  choices := []
  provisions := []
  keyTools := ⟨none, none, none, none⟩
  statuses := []
  commits := []
  pulls := [.error error]
  pushes := []
  others := []

/-- A pull that fails with a cancellation under thirty-one wrappers is cancelled. -/
theorem pull_cancelled_within_depth :
    (SyncError.command "pull" (.buried 31)).root = Cause.cancellation ∧
      (Script.backend.execute .silent (.pull "origin") (.password "alice" "pw")
        (.pullFails (.buried 31))).1 = .cancelled := by
  refine ⟨rfl, ?_⟩
  obtain ⟨name, source, wrappers, -, -, -, hSeen, hCancelled, -⟩ :=
    execute_cancelled_within_depth Script.backend (.password "alice" "pw") .silent (.pull "origin")
      (.pullFails (.buried 31)) (.command "pull" (.buried 31)) rfl rfl
  exact (hCancelled (hSeen.1 rfl)).1

/-- Under one wrapper more the cancellation is what the run is said to have failed of. -/
theorem pull_failed_of_cancellation :
    (SyncError.command "pull" (.buried 32)).root = Cause.cancellation ∧
      (SyncError.command "pull" (.buried 32)).isUserCancelled = false ∧
      (Script.backend.execute .silent (.pull "origin") (.password "alice" "pw")
        (.pullFails (.buried 32))).1 =
          .failed .pull (.command "pull" (.buried 32)) "Disconnected: auth cancelled by user" :=
  ⟨rfl, rfl, rfl⟩

end VaultSync
