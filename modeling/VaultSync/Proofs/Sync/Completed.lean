import VaultSync.Proofs.Sync.Calls
import VaultSync.Sync.Script

/-! Runs that are completed. Nothing failed in them, so every step was called and answered with a value, but
for the commits that had nothing to record, and the report counts exactly what was called. Of a rebase
that stopped a run fails at once. -/
namespace VaultSync

/-! ### Calls without a failure -/

/-- The call was answered with a value. -/
def Call.Succeeded (call : Call) : Prop :=
  ∃ value, call.reply = .ok value

/-- Whether the remote took what was pushed, or had it already. -/
def RefUpdate.Accepted (update : RefUpdate) : Prop :=
  update.status = .ok ∨ update.status = .upToDate

/-- An update raises no error exactly when it is accepted. -/
theorem RefUpdate.pushError?_eq_none_iff {update : RefUpdate} :
    update.pushError? = none ↔ update.Accepted := by
  obtain ⟨ref, status, message⟩ := update
  cases status <;> simp only [pushError?, Accepted, reduceCtorEq, or_self, or_true, true_or]
  cases message with
  | none => simp
  | some message => by_cases h : message = nonFastForwardMessage <;> simp [h]

namespace Call

variable {call : Call}

theorem succeeded_of_failures (h : call.failures = []) : call.Succeeded := by
  obtain ⟨command, credential, reply⟩ := call
  cases reply with
  | ok value => exact ⟨value, rfl⟩
  | error e => cases command <;> simp [failures] at h
  | crashed message => cases command <;> simp [failures] at h

theorem stops_of_failures (h : call.failures = []) : call.stops = false := by
  obtain ⟨command, credential, reply⟩ := call
  cases reply with
  | error e => cases command <;> rfl
  | crashed message => cases command <;> rfl
  | ok value =>
      cases command with
      | pull remote =>
          by_cases hStopped : value = RebaseStatus.stopped
          · simp [failures, hStopped] at h
          · simp [stops, rebaseStatus?, hStopped]
      | status | commit message | push remote branch force | plain command => rfl

/-- A call without failures has only accepted updates. -/
theorem accepted_of_failures (h : call.failures = []) : ∀ update ∈ call.refUpdates, update.Accepted := by
  obtain ⟨command, credential, reply⟩ := call
  cases reply with
  | error e => cases command <;> simp [refUpdates]
  | crashed message => cases command <;> simp [refUpdates]
  | ok value =>
      cases command with
      | push remote branch force =>
          intro update hUpdate
          rw [failures, List.map_eq_nil_iff, List.filterMap_eq_nil_iff] at h
          exact RefUpdate.pushError?_eq_none_iff.1 (h update hUpdate)
      | status | commit message | pull remote | plain command => simp [refUpdates]

/-- Only a pull whose rebase stopped fails of that. -/
theorem pull_of_mem_failures (h : SyncError.pull .rebaseFailed ∈ call.failures) :
    ∃ remote credential, call = ⟨.pull remote, credential, .ok .stopped⟩ := by
  obtain ⟨command, credential, reply⟩ := call
  cases reply with
  | error e => cases command <;> simp [failures] at h
  | crashed message => cases command <;> simp [failures] at h
  | ok value =>
      cases command with
      | pull remote =>
          by_cases hStopped : value = RebaseStatus.stopped
          · exact ⟨remote, credential, hStopped ▸ rfl⟩
          · simp [failures, hStopped] at h
      | status | commit message | push remote branch force | plain command => simp [failures] at h

/-- A call that succeeded shows how a rebase ended exactly if it is a pull. -/
theorem rebaseStatus?_eq_none_iff (h : call.Succeeded) :
    call.rebaseStatus? = none ↔ ∀ remote, call.command ≠ .pull remote := by
  obtain ⟨command, credential, reply⟩ := call
  cases reply with
  | ok value => cases command <;> simp [rebaseStatus?]
  | error e => simp [Succeeded] at h
  | crashed message => simp [Succeeded] at h

end Call

/-! ### One step after the other -/

namespace Progress

variable {progress : Progress} {call : Call}

/-- Taking in an answer never clears a failure. -/
theorem failures_of_after (h : (progress.after call).failure = none) :
    progress.failure = none ∧ call.failures = [] := by
  rw [after, absorb_eq] at h
  obtain ⟨hCall, hBefore⟩ := Option.or_eq_none_iff.1 h
  exact ⟨hBefore, List.getLast?_eq_none_iff.1 hCall⟩

theorem halted_after (h : progress.halted = false) (hStops : call.stops = false) :
    (progress.after call).halted = false := by
  rw [after, absorb_eq]
  simp [h, hStops]

theorem halted_of_after (h : (progress.after call).failure = none) (hHalted : progress.halted = false) :
    (progress.after call).halted = false :=
  halted_after hHalted (Call.stops_of_failures (failures_of_after h).2)

/-- A pull that stopped halts the run that fails of it. -/
theorem stopped_of_after (h : (progress.after call).failure = some (.pull .rebaseFailed))
    (hBefore : progress.failure ≠ some (.pull .rebaseFailed)) :
    (progress.after call).halted = true ∧
      ∃ remote credential, call = ⟨.pull remote, credential, .ok .stopped⟩ := by
  have hHere : SyncError.pull .rebaseFailed ∈ call.failures := by
    rw [after, absorb_eq] at h
    rcases Option.or_eq_some_iff.1 h with hHere | ⟨-, hEarlier⟩
    · exact List.mem_of_getLast? hHere
    · exact absurd hEarlier hBefore
  obtain ⟨remote, credential, rfl⟩ := Call.pull_of_mem_failures hHere
  refine ⟨?_, remote, credential, rfl⟩
  rw [after, absorb_eq]
  exact Bool.or_true _

/-- A completed outcome has no failure, and its report is what the run adds up. -/
theorem outcome_eq_completed {kind : OperationKind} {report : SyncReport}
    (h : progress.outcome kind = .completed report) :
    progress.failure = none ∧ report = ⟨kind, progress.commandsRun, progress.commitSkipped,
      progress.rebaseStatus, progress.refUpdates⟩ := by
  rw [outcome] at h
  split at h
  · rename_i hFailure
    exact ⟨hFailure, (SyncOutcome.completed.inj h).symm⟩
  · split at h <;> cases h

/-- A failed outcome has the last failure of the run. -/
theorem outcome_eq_failed {kind kind' : OperationKind} {error : SyncError} {cause : String}
    (h : progress.outcome kind = .failed kind' error cause) : progress.failure = some error := by
  rw [outcome] at h
  split at h
  · cases h
  · rename_i hFailure
    split at h
    · cases h
    · rw [hFailure, (SyncOutcome.failed.inj h).2.1]

end Progress

namespace Backend

variable {σ : Type} {backend : Backend σ} {credential : Credential} {command : Command}
  {rest steps : List Command} {progress last : Progress} {state state' : σ}

theorem steps_of_halted (h : progress.halted = true) :
    backend.steps credential steps progress state = (progress, state) := by
  cases steps with
  | nil => rfl
  | cons command steps => rw [Backend.steps, if_pos h]

/-- A run takes its first command or skips it, then the others. -/
theorem steps_cons (hHalted : progress.halted = false) :
    backend.steps credential (command :: rest) progress state =
      if progress.skips command then
        backend.steps credential rest { progress with commitSkipped := true } state
      else
        backend.steps credential rest (progress.after (backend.answered credential command state))
          (backend.perform command credential state).2 := by
  cases hSkips : progress.skips command with
  | true => simp [Backend.steps, hHalted, step, hSkips]
  | false => simp [Backend.steps, hHalted, step, hSkips, answered, Progress.after]

/-- A step that is not left out is performed, whatever has failed before it. -/
theorem steps_of_perform (hHalted : progress.halted = false) (hSkips : progress.skips command = false)
    {reply : Reply TransportError command.Result}
    (hPerform : backend.perform command credential state = (reply, state')) :
    backend.steps credential (command :: rest) progress state =
      backend.steps credential rest (progress.after ⟨command, command.received credential, reply⟩) state' := by
  rw [steps_cons hHalted, hSkips, if_neg Bool.false_ne_true, answered, hPerform]

theorem steps_of_skips (hHalted : progress.halted = false) (hSkips : progress.skips command = true) :
    backend.steps credential (command :: rest) progress state =
      backend.steps credential rest { progress with commitSkipped := true } state := by
  rw [steps_cons hHalted, hSkips, if_pos rfl]

/-- A failure is not cleared by the steps behind it. -/
theorem failure_of_steps (h : (backend.steps credential steps progress state).1.failure = none) :
    progress.failure = none := by
  induction steps generalizing progress state with
  | nil => exact h
  | cons command steps ih =>
      cases hHalted : progress.halted with
      | true =>
          rw [steps_of_halted hHalted] at h
          exact h
      | false =>
          rw [steps_cons hHalted] at h
          split at h
          · exact (ih h :)
          · exact (Progress.failures_of_after (ih h)).1

/-- A run in which nothing failed: each step was answered with a value, or was a commit that was left out.
The updates are those that its pushes reported. -/
inductive Completes (backend : Backend σ) (credential : Credential) :
    List Command → σ → List RefUpdate → σ → Prop
  | done {s : σ} : Completes backend credential [] s [] s
  | leftOut {message : String} {rest : List Command} {s s' : σ} {updates : List RefUpdate}
      (hRest : Completes backend credential rest s updates s') :
      Completes backend credential (.commit message :: rest) s updates s'
  | ran {command : Command} {rest : List Command} {s next s' : σ} {updates : List RefUpdate}
      {value : command.Result} (hPerform : backend.perform command credential s = (.ok value, next))
      (hFailures : Call.failures ⟨command, command.received credential, .ok value⟩ = [])
      (hRest : Completes backend credential rest next updates s') :
      Completes backend credential (command :: rest) s
        (Call.refUpdates ⟨command, command.received credential, .ok value⟩ ++ updates) s'

theorem Completes.eq_of_nil {s s' : σ} {updates : List RefUpdate}
    (h : backend.Completes credential [] s updates s') : s' = s := by
  cases h
  rfl

/-- A run whose progress ends without a failure completes. -/
theorem completes_of_steps (hSteps : backend.steps credential steps progress state = (last, state'))
    (hLast : last.failure = none) (hHalted : progress.halted = false) :
    ∃ updates, backend.Completes credential steps state updates state' ∧
      last.refUpdates = progress.refUpdates ++ updates := by
  induction steps generalizing progress state with
  | nil =>
      obtain ⟨rfl, rfl⟩ := Prod.mk.inj hSteps
      exact ⟨[], .done, (List.append_nil _).symm⟩
  | cons command steps ih =>
      rw [steps_cons hHalted] at hSteps
      split at hSteps
      · rename_i hSkips
        obtain ⟨updates, hRest, hUpdates⟩ := ih hSteps hHalted
        obtain ⟨message, rfl⟩ : ∃ message, command = .commit message := by
          cases command <;> simp [Progress.skips] at hSkips ⊢
        exact ⟨updates, .leftOut hRest, hUpdates⟩
      -- failures are never taken back, so this call has none either
      · have hAfter : (progress.after (backend.answered credential command state)).failure = none :=
          failure_of_steps ((congrArg (·.1.failure) hSteps).trans hLast)
        obtain ⟨-, hFailures⟩ := Progress.failures_of_after hAfter
        obtain ⟨value, hValue⟩ := Call.succeeded_of_failures hFailures
        have hCall : backend.answered credential command state =
            ⟨command, command.received credential, .ok value⟩ := by
          rw [answered, Call.mk.injEq]
          exact ⟨rfl, rfl, heq_of_eq hValue⟩
        obtain ⟨updates, hRest, hUpdates⟩ := ih hSteps (Progress.halted_of_after hAfter hHalted)
        rw [hCall] at hFailures hUpdates
        refine ⟨_, .ran (Prod.ext hValue rfl) hFailures hRest, ?_⟩
        rw [hUpdates, Progress.after, Progress.absorb_eq, List.append_assoc]

/-- Without hooks a run only carries out its steps. -/
theorem execute_silent (backend : Backend σ) (operation : Operation) (credential : Credential) (state : σ) :
    let run := backend.steps credential operation.steps .start state
    backend.execute .silent operation credential state = (run.1.outcome operation.kind, run.2) := by
  intro run
  rw [execute]
  dsimp only
  split <;> rfl

/-- What a run without hooks has done that is completed. -/
theorem completes_of_execute {operation : Operation} {report : SyncReport}
    (h : backend.execute .silent operation credential state = (.completed report, state')) :
    backend.Completes credential operation.steps state report.refUpdates state' := by
  obtain ⟨hOutcome, rfl⟩ := Prod.mk.inj ((backend.execute_silent operation credential state).symm.trans h)
  obtain ⟨hFailure, rfl⟩ := Progress.outcome_eq_completed hOutcome
  obtain ⟨updates, hCompletes, hUpdates⟩ := completes_of_steps rfl hFailure rfl
  exact hUpdates ▸ hCompletes

/-- A run that fails of a stopped rebase has ended with the pull that stopped. -/
theorem stopped_of_steps (hSteps : backend.steps credential steps progress state = (last, state'))
    (hLast : last.failure = some (.pull .rebaseFailed))
    (hBefore : progress.failure ≠ some (.pull .rebaseFailed)) :
    ∃ remote before, backend.perform (.pull remote) credential before = (.ok .stopped, state') := by
  induction steps generalizing progress state with
  | nil =>
      obtain ⟨rfl, -⟩ := Prod.mk.inj hSteps
      exact absurd hLast hBefore
  | cons command steps ih =>
      cases hHalted : progress.halted with
      | true =>
          rw [steps_of_halted hHalted] at hSteps
          obtain ⟨rfl, -⟩ := Prod.mk.inj hSteps
          exact absurd hLast hBefore
      | false =>
          rw [steps_cons hHalted] at hSteps
          split at hSteps
          · exact ih hSteps hBefore
          -- the call that first brings this failure is a pull, and it stops the run where it stands
          · by_cases hFailed : (progress.after (backend.answered credential command state)).failure =
                some (.pull .rebaseFailed)
            · obtain ⟨hStops, remote, received, hPull⟩ := Progress.stopped_of_after hFailed hBefore
              obtain ⟨rfl, -, hReply⟩ := Call.mk.inj hPull
              rw [steps_of_halted hStops] at hSteps
              exact ⟨remote, state, Prod.ext (eq_of_heq hReply) (Prod.mk.inj hSteps).2⟩
            · exact ih hSteps hFailed

/-- A run that failed for a stopped rebase ended with a pull that stopped. -/
theorem stopped_of_execute {operation : Operation} {kind : OperationKind} {cause : String}
    (h : backend.execute .silent operation credential state =
      (.failed kind (.pull .rebaseFailed) cause, state')) :
    ∃ remote before, backend.perform (.pull remote) credential before = (.ok .stopped, state') := by
  obtain ⟨hOutcome, rfl⟩ := Prod.mk.inj ((backend.execute_silent operation credential state).symm.trans h)
  exact stopped_of_steps rfl (Progress.outcome_eq_failed hOutcome) (Option.some_ne_none _).symm

/-- In a run that did not halt each step was run or counts as a commit that was skipped. -/
theorem steps_counted (h : (backend.steps credential steps progress state).1.halted = false) :
    let last := (backend.steps credential steps progress state).1
    last.commandsRun ≤ progress.commandsRun + steps.length ∧
      (last.commitSkipped = true ↔
        progress.commitSkipped = true ∨ last.commandsRun < progress.commandsRun + steps.length) := by
  -- each step is counted as a command that ran or is the commit that was left out
  induction steps generalizing progress state with
  | nil => simp [Backend.steps]
  | cons command steps ih =>
      cases hHalted : progress.halted with
      | true =>
          rw [steps_of_halted hHalted] at h
          exact absurd h (by simp [hHalted])
      | false =>
          dsimp only
          rw [steps_cons hHalted] at h ⊢
          split at h
          · rename_i hSkips
            obtain ⟨hLe, hSkipped⟩ := ih h
            rw [if_pos hSkips, List.length_cons]
            dsimp only at hLe
            exact ⟨by omega, iff_of_true (hSkipped.2 (.inl rfl)) (.inr (by omega))⟩
          · rename_i hRuns
            obtain ⟨hLe, hSkipped⟩ := ih h
            have hCount : (progress.after (backend.answered credential command state)).commandsRun =
                progress.commandsRun + 1 := by rw [Progress.after, Progress.absorb_eq]
            have hKept : (progress.after (backend.answered credential command state)).commitSkipped =
                progress.commitSkipped := by rw [Progress.after, Progress.absorb_eq]
            rw [hCount] at hLe hSkipped
            rw [hKept] at hSkipped
            rw [if_neg hRuns, List.length_cons]
            refine ⟨by omega, hSkipped.trans (or_congr_right ?_)⟩
            omega

end Backend

/-! ### The report -/

/-- A report that says what became of the steps of an operation: which were left out, and what the calls of
the others were answered with. -/
structure SyncReport.Accounts (report : SyncReport) (steps : List Command) (slots : List (Option Call)) :
    Prop where
  succeeded : ∀ call ∈ slots.reduceOption, call.Succeeded
  left_out : ∀ k : Nat, slots[k]? = some none → ∃ message, steps[k]? = some (Command.commit message)
  commandsRun : report.commandsRun + (slots.filter Option.isNone).length = steps.length
  commitSkipped : report.commitSkipped = true ↔ none ∈ slots
  rebaseStatus : report.rebaseStatus = (slots.reduceOption.filterMap Call.rebaseStatus?).getLast?
  without_pull : report.rebaseStatus = none ↔ ∀ remote, .pull remote ∉ steps
  unstopped : report.rebaseStatus ≠ some .stopped
  refUpdates : report.refUpdates = slots.reduceOption.flatMap Call.refUpdates
  accepted : ∀ update ∈ report.refUpdates, update.Accepted

namespace Plan

variable {credential : Credential} {before : List Call} {command : Command} {steps : List Command}
  {slots : List (Option Call)}

/-- Each step has a place among the slots. -/
theorem slot_of_mem (h : Plan credential before steps slots) (hMem : command ∈ steps) :
    ∃ k : Nat, steps[k]? = some command ∧ (slots[k]? = some none ∨
      ∃ call ∈ slots.reduceOption, call.command = command) := by
  obtain ⟨k, hStep⟩ := List.mem_iff_getElem?.1 hMem
  obtain ⟨hBound, -⟩ := List.getElem?_eq_some_iff.1 hStep
  refine ⟨k, hStep, ?_⟩
  cases hSlot : slots[k]? with
  | none =>
      rw [List.getElem?_eq_none_iff, h.length_eq] at hSlot
      omega
  | some slot =>
      cases slot with
      | none => exact .inl rfl
      | some call =>
          refine .inr ⟨call, List.reduceOption_mem_iff.2 (List.mem_of_getElem? hSlot), ?_⟩
          exact Option.some.inj ((h.called k call hSlot).1.symm.trans hStep)

/-- Every call is of one of the steps. -/
theorem mem_steps_of_call {call : Call} (h : Plan credential before steps slots)
    (hMem : call ∈ slots.reduceOption) : call.command ∈ steps := by
  obtain ⟨k, hSlot⟩ := List.mem_iff_getElem?.1 (List.reduceOption_mem_iff.1 hMem)
  exact List.mem_of_getElem? (h.called k call hSlot).1

end Plan

/-- Without a failure in the end no call has failed. -/
theorem Progress.Follows.failures_eq_nil {progress : Progress} {calls : List Call} (h : progress.Follows calls)
    (hFailure : progress.failure = none) : ∀ call ∈ calls, call.failures = [] := by
  rw [h.failure, List.getLast?_eq_none_iff, List.flatMap_eq_nil_iff] at hFailure
  exact hFailure

/-- Only a failure halts a run. -/
theorem Progress.Follows.halted_of_failure {progress : Progress} {calls : List Call} (h : progress.Follows calls)
    (hFailure : progress.failure = none) : progress.halted = false := by
  rw [h.halted, List.any_eq_false]
  intro call hCall
  rw [Call.stops_of_failures (h.failures_eq_nil hFailure call hCall)]
  exact Bool.false_ne_true

/-- Without a failure only commits are left out, and the report that is read off accounts for
all steps. -/
theorem Progress.Follows.accounts {progress : Progress} {credential : Credential} {steps : List Command}
    {slots : List (Option Call)} (h : progress.Follows slots.reduceOption)
    (hPlan : Plan credential [] steps slots) (hFailure : progress.failure = none)
    (hSkipped : progress.commitSkipped = true ↔ progress.commandsRun < steps.length)
    (kind : OperationKind) :
    SyncReport.Accounts ⟨kind, progress.commandsRun, progress.commitSkipped, progress.rebaseStatus,
      progress.refUpdates⟩ steps slots := by
  have hNone := h.failures_eq_nil hFailure
  have hSucceeded (call : Call) (hCall : call ∈ slots.reduceOption) : call.Succeeded :=
    Call.succeeded_of_failures (hNone call hCall)
  -- without a failure no call stops the run, so only a commit can be left out
  have hLeftOut (k : Nat) (hSlot : slots[k]? = some none) :
      ∃ message, steps[k]? = some (Command.commit message) := by
    obtain ⟨command, hStep⟩ : ∃ command, steps[k]? = some command := by
      obtain ⟨hBound, -⟩ := List.getElem?_eq_some_iff.1 hSlot
      exact ⟨_, List.getElem?_eq_getElem (hPlan.length_eq ▸ hBound)⟩
    rcases (hPlan.left_out k command hStep).1 hSlot with ⟨call, hCall, hStops⟩ | ⟨⟨message, rfl⟩, -⟩
    · have hMem : call ∈ slots.reduceOption := by
        rw [List.nil_append, List.reduceOption_mem_iff] at hCall
        exact List.reduceOption_mem_iff.2 (List.mem_of_mem_take hCall)
      rw [Call.stops_of_failures (hNone call hMem)] at hStops
      cases hStops
    · exact ⟨message, hStep⟩
  have hCount : progress.commandsRun + (slots.filter Option.isNone).length = steps.length := by
    rw [h.commandsRun, ← hPlan.length_eq]
    exact List.length_eq_reduceOption_length_add_filter_none.symm
  have hPull : (∀ call ∈ slots.reduceOption, call.rebaseStatus? = none) ↔ ∀ remote, .pull remote ∉ steps := by
    constructor
    · intro hCalls remote hMem
      obtain ⟨k, hStep, hSlot | ⟨call, hCall, hCommand⟩⟩ := hPlan.slot_of_mem hMem
      · obtain ⟨message, hCommit⟩ := hLeftOut k hSlot
        cases hStep.symm.trans hCommit
      · exact (Call.rebaseStatus?_eq_none_iff (hSucceeded call hCall)).1 (hCalls call hCall) remote hCommand
    · intro hSteps call hCall
      refine (Call.rebaseStatus?_eq_none_iff (hSucceeded call hCall)).2 fun remote hCommand => ?_
      exact hSteps remote (hCommand ▸ hPlan.mem_steps_of_call hCall)
  refine ⟨hSucceeded, hLeftOut, hCount, hSkipped.trans ?_, h.rebaseStatus, ?_, ?_, h.refUpdates, ?_⟩
  · have hSome : none ∈ slots ↔ 0 < (slots.filter Option.isNone).length := by
      rw [List.length_pos_iff_exists_mem]
      simp [Option.isNone_iff_eq_none]
    rw [hSome]
    omega
  · rw [← hPull]
    simp [h.rebaseStatus]
  · intro hStopped
    rw [h.rebaseStatus] at hStopped
    obtain ⟨call, hCall, hStatus⟩ := List.mem_filterMap.1 (List.mem_of_getLast? hStopped)
    have hStops := Call.stops_of_failures (hNone call hCall)
    simp [Call.stops, hStatus] at hStops
  · intro update hUpdate
    rw [h.refUpdates] at hUpdate
    obtain ⟨call, hCall, hMem⟩ := List.mem_flatMap.1 hUpdate
    exact Call.accepted_of_failures (hNone call hCall) update hMem

/-- An outcome that is a success has a report. -/
theorem SyncOutcome.exists_report {σ : Type} {run : SyncOutcome × σ} (h : run.1.isSuccess = true) :
    ∃ report, run = (.completed report, run.2) := by
  obtain ⟨outcome, state⟩ := run
  cases outcome with
  | completed report => exact ⟨report, rfl⟩
  | cancelled => cases h
  | failed kind error cause => cases h

/-- The exit code is zero exactly for completed outcomes. -/
theorem SyncOutcome.exitCode_eq_zero_iff {outcome : SyncOutcome} :
    outcome.exitCode = 0 ↔ ∃ report, outcome = .completed report := by
  cases outcome <;> simp [exitCode]

variable {σ : Type} (backend : Backend σ) (credential : Credential)

/-- The report of a run that is completed accounts for every step of its operation. All calls succeeded, and
what has no call is a commit with nothing to record. The commands that were run and the commits that were
skipped are all the steps; the rebase status is that of the last pull, there is none exactly without a pull,
and it never says that the rebase stopped; the ref updates are those of all pushes in order, and each was
accepted. So with the exit code 0 no ref update was rejected. -/
theorem execute_report_accounts (hooks : Hooks σ) (operation : Operation) (state : σ) :
    let calls := (backend.recorded.execute hooks.recorded operation credential (.start state)).2.calls
    let outcome := (backend.execute hooks operation credential state).1
    (∀ report, outcome = .completed report → report.operation = operation.kind ∧
      ∃ slots, Plan credential [] operation.steps slots ∧ calls = slots.reduceOption ∧
        report.Accounts operation.steps slots) ∧
    (outcome.exitCode = 0 → ∀ call ∈ calls, ∀ update ∈ call.refUpdates, update.Accepted) := by
  dsimp only
  obtain ⟨slots, hPlan, -, hCalls, hFollows⟩ :=
    backend.steps_plan_start credential operation.steps state
  rw [backend.execute_calls credential hooks operation, hCalls, backend.outcome_recorded,
    Backend.execute_outcome]
  have hCounted := @Backend.steps_counted _ backend.recorded credential operation.steps .start (.start state)
  generalize (backend.recorded.steps credential operation.steps .start (.start state)).1 = last
    at hFollows hCounted ⊢
  have hAccounts (report : SyncReport) (hCompleted : last.outcome operation.kind = .completed report) :
      report.operation = operation.kind ∧ report.Accounts operation.steps slots := by
    obtain ⟨hFailure, rfl⟩ := Progress.outcome_eq_completed hCompleted
    obtain ⟨-, hSkipped⟩ := hCounted (hFollows.halted_of_failure hFailure)
    exact ⟨rfl, hFollows.accounts hPlan hFailure (by simpa [Progress.start] using hSkipped) operation.kind⟩
  refine ⟨fun report hCompleted => ?_, fun hExit call hCall update hUpdate => ?_⟩
  · obtain ⟨hKind, hReport⟩ := hAccounts report hCompleted
    exact ⟨hKind, slots, hPlan, rfl, hReport⟩
  · obtain ⟨report, hCompleted⟩ := SyncOutcome.exitCode_eq_zero_iff.1 hExit
    have hReport := (hAccounts report hCompleted).2
    refine hReport.accepted update ?_
    rw [hReport.refUpdates]
    exact List.mem_flatMap.2 ⟨call, hCall, hUpdate⟩

/-- A script with nothing to record, whose first push is accepted. -/
def Script.acceptsPush : Script where
  files := ⟨[], []⟩
  answers := []
  choices := []
  provisions := []
  keyTools := ⟨none, none, none, none⟩
  statuses := []
  commits := []
  pulls := []
  pushes := [.ok [⟨"refs/heads/master", .ok, none⟩]]
  others := []

/-- A sync without changes leaves its commit out, and says so. -/
theorem execute_report_accounts_unchanged :
    let outcome := (Script.backend.execute .silent (.sync "origin" "note") (.password "alice" "pw")
      .acceptsPush).1
    let report : SyncReport := ⟨.sync, 4, true, some .upToDate, [⟨"refs/heads/master", .ok, none⟩]⟩
    outcome = .completed report ∧ outcome.exitCode = 0 ∧
      ∃ slots, report.Accounts (Operation.sync "origin" "note").steps slots := by
  intro outcome report
  have hOutcome : outcome = .completed report := rfl
  obtain ⟨hReport, -⟩ := execute_report_accounts Script.backend (.password "alice" "pw") .silent
    (.sync "origin" "note") .acceptsPush
  obtain ⟨-, slots, -, -, hAccounts⟩ := hReport report hOutcome
  exact ⟨hOutcome, rfl, slots, hAccounts⟩

end VaultSync
