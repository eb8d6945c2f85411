import VaultSync.Proofs.Sync.Calls

/-! How a run ends. The failures of its calls, in the order in which they happen, decide it: without any
the run is completed, and otherwise the last one alone tells whether it was cancelled or failed. -/
namespace VaultSync

/-- An outcome that says what the last of some failures asks for. -/
def SyncOutcome.IsDecidedBy (outcome : SyncOutcome) (kind : OperationKind)
    (failures : List SyncError) : Prop :=
  (failures = [] ↔ ∃ report, outcome = .completed report) ∧
    ∀ failure, failures.getLast? = some failure →
      outcome =
        if failure.isUserCancelled then .cancelled else .failed kind failure failure.root.message

/-- What the executor knows in the end is enough to be decided by all failures, though it keeps only
the latest one. -/
theorem Progress.Follows.outcome_decided {progress : Progress} {calls : List Call}
    (h : progress.Follows calls) (kind : OperationKind) :
    (progress.outcome kind).IsDecidedBy kind (calls.flatMap Call.failures) := by
  cases hLast : (calls.flatMap Call.failures).getLast? with
  | none =>
      have hNone : calls.flatMap Call.failures = [] := List.getLast?_eq_none_iff.1 hLast
      have hOutcome : progress.outcome kind =
          .completed ⟨kind, progress.commandsRun, progress.commitSkipped, progress.rebaseStatus,
            progress.refUpdates⟩ := by
        rw [Progress.outcome, h.failure, hLast]
      exact ⟨iff_of_true hNone ⟨_, hOutcome⟩, by simp [hLast]⟩
  | some failure =>
      have hSome : calls.flatMap Call.failures ≠ [] := by
        intro hNone
        simp [hNone] at hLast
      have hOutcome : progress.outcome kind =
          if failure.isUserCancelled then .cancelled else .failed kind failure failure.root.message := by
        rw [Progress.outcome, h.failure, hLast]
      refine ⟨iff_of_false hSome ?_, ?_⟩
      · rintro ⟨report, hCompleted⟩
        rw [hOutcome] at hCompleted
        split at hCompleted <;> cases hCompleted
      · intro other hOther
        obtain rfl : failure = other := by simpa [hLast] using hOther
        exact hOutcome

variable {σ : Type} (backend : Backend σ) (credential : Credential)

/-- All that a run of an operation does outside the executor: the calls of a plan for its steps, and
behind them what the hooks are told of the outcome that the failures of these calls decide. -/
theorem Backend.execute_told (hooks : Hooks σ) (operation : Operation) (state : σ) :
    let outcome := (backend.execute hooks operation credential state).1
    ∃ slots, Plan credential [] operation.steps slots ∧
      (backend.recorded.execute hooks.recorded operation credential (.start state)).2.log =
        slots.reduceOption.map .called ++ outcome.tellings ∧
      (backend.recorded.execute hooks.recorded operation credential (.start state)).2.calls =
        slots.reduceOption ∧
      outcome.IsDecidedBy operation.kind (slots.reduceOption.flatMap Call.failures) := by
  dsimp only
  obtain ⟨slots, hPlan, hEntries, hCalls, hFollows⟩ :=
    backend.steps_plan_start credential operation.steps state
  rw [backend.outcome_recorded]
  refine ⟨slots, hPlan, ?_, (backend.execute_calls credential hooks operation _).trans hCalls, ?_⟩
  · rw [backend.execute_log credential hooks operation, hEntries]
  · rw [Backend.execute_outcome]
    exact hFollows.outcome_decided operation.kind

/-- A run has one outcome, which the failures of its calls decide: it is completed if and only if there
are none, and otherwise the last one says whether it was cancelled or failed, with the kind of the
operation and the message under its wrappers. The hooks are told behind all calls: the report of a
completed run or the failure of a failed one, once, and nothing of a run that was cancelled. So a later
success never clears a failure. -/
theorem execute_outcome_decided (hooks : Hooks σ) (operation : Operation) (state : σ) :
    let run := (backend.recorded.execute hooks.recorded operation credential (.start state)).2
    let outcome := (backend.execute hooks operation credential state).1
    outcome.IsDecidedBy operation.kind (run.calls.flatMap Call.failures) ∧
      run.log = run.calls.map .called ++ outcome.tellings := by
  dsimp only
  obtain ⟨slots, -, hLog, hCalls, hDecided⟩ := backend.execute_told credential hooks operation state
  rw [hCalls]
  exact ⟨hDecided, hLog⟩

end VaultSync
