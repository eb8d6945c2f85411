import VaultSync.Proofs.Sync.Completed

/-! The steps of a sync up to its commit, which may each fail. None of them holds back the next one, but for
a status that has seen nothing to record: it leaves the commit out. -/
namespace VaultSync

/-- What a run knows to be recorded is what the latest status that succeeded has seen. -/
theorem Progress.changes_after (progress : Progress) (call : Call) :
    (progress.after call).changes = call.pending?.or progress.changes := by
  rw [Progress.after, Progress.absorb_eq]

namespace Backend

variable {σ : Type}

/-- A run carries out the first of its steps as a run of their own would. -/
theorem steps_append (backend : Backend σ) (credential : Credential) (first rest : List Command)
    (progress : Progress) (state : σ) :
    let run := backend.steps credential first progress state
    backend.steps credential (first ++ rest) progress state = backend.steps credential rest run.1 run.2 := by
  induction first generalizing progress state with
  | nil => rfl
  | cons command first ih =>
      cases hHalted : progress.halted with
      | true => simp only [steps_of_halted hHalted]
      | false =>
          rw [List.cons_append, steps_cons hHalted, steps_cons hHalted]
          split
          · exact ih _ _
          · exact ih _ _

/-- In a run that succeeds nothing has failed. -/
theorem failure_of_isSuccess {backend : Backend σ} {credential : Credential} {hooks : Hooks σ}
    {operation : Operation} {state : σ}
    (h : (backend.execute hooks operation credential state).1.isSuccess = true) :
    (backend.steps credential operation.steps .start state).1.failure = none := by
  obtain ⟨report, hCompleted⟩ := SyncOutcome.exists_report h
  have hOutcome := (execute_outcome ..).symm.trans (congrArg Prod.fst hCompleted)
  exact (Progress.outcome_eq_completed hOutcome).1

/-- The first three steps of a sync, whichever of them fails. The commit is left out only if the status has
succeeded and saw nothing to record. -/
theorem steps_up_to_commit (backend : Backend σ) (credential : Credential) (message : String) (state : σ) :
    let added := backend.perform (.plain .addAll) credential state
    let counted := backend.perform .status credential added.2
    let run := backend.steps credential [.plain .addAll, .status, .commit message] .start state
    run.1.halted = false ∧
      (run.1.failure = none → added.1 = .ok () ∧ ∃ report, counted.1 = .ok report) ∧
      ((∃ report, counted.1 = .ok report ∧ report.pending = 0 ∧ run.2 = counted.2) ∨
        (∀ report, counted.1 = .ok report → report.pending ≠ 0) ∧
          run.2 = (backend.perform (.commit message) credential counted.2).2) := by
  intro added counted run
  let afterAdd := Progress.start.after ⟨.plain .addAll, some credential, added.1⟩
  let afterCount := afterAdd.after ⟨.status, none, counted.1⟩
  have hAdded : afterAdd.halted = false := Progress.halted_after rfl rfl
  have hCounted : afterCount.halted = false := Progress.halted_after hAdded rfl
  have hRun : run = backend.steps credential [.commit message] afterCount counted.2 :=
    (steps_of_perform rfl rfl rfl).trans (steps_of_perform hAdded rfl rfl)
  -- whether the commit is skipped is decided by the count just made, since staging counts nothing
  have hSkips : afterCount.skips (.commit message) = true ↔
      ∃ report, counted.1 = .ok report ∧ report.pending = 0 := by
    have hChanges : afterCount.changes = Call.pending? ⟨.status, none, counted.1⟩ := by
      rw [Progress.changes_after, Progress.changes_after]
      exact Option.or_none
    rw [Progress.skips, decide_eq_true_iff, hChanges]
    cases counted.1 <;> simp [Call.pending?]
  have hClear (h : run.1.failure = none) : added.1 = .ok () ∧ ∃ report, counted.1 = .ok report := by
    have hBefore : afterCount.failure = none := failure_of_steps (hRun ▸ h)
    obtain ⟨hBefore, hStatus⟩ := Progress.failures_of_after hBefore
    obtain ⟨-, hStaging⟩ := Progress.failures_of_after hBefore
    obtain ⟨value, hValue⟩ := Call.succeeded_of_failures hStaging
    exact ⟨hValue, Call.succeeded_of_failures hStatus⟩
  by_cases hNothing : ∃ report, counted.1 = .ok report ∧ report.pending = 0
  · obtain ⟨report, hReport, hPending⟩ := hNothing
    have hLeftOut : run = ({ afterCount with commitSkipped := true }, counted.2) :=
      hRun.trans (steps_of_skips hCounted (hSkips.2 ⟨report, hReport, hPending⟩))
    refine ⟨?_, hClear, .inl ⟨report, hReport, hPending, congrArg Prod.snd hLeftOut⟩⟩
    rw [hLeftOut]
    exact hCounted
  · have hCalled : run = (afterCount.after (backend.answered credential (.commit message) counted.2),
        (backend.perform (.commit message) credential counted.2).2) :=
      hRun.trans (steps_of_perform hCounted (Bool.eq_false_iff.2 fun h => hNothing (hSkips.1 h)) rfl)
    refine ⟨?_, hClear, .inr ⟨fun report hReport hPending => hNothing ⟨report, hReport, hPending⟩,
      congrArg Prod.snd hCalled⟩⟩
    rw [hCalled]
    exact Progress.halted_after hCounted rfl

end Backend

end VaultSync
