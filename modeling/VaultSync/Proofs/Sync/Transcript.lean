import Mathlib.Data.List.ReduceOption
import VaultSync.Sync.Trace

/-! What a run of an operation asks of its backend and tells its hooks, written down with the answer to
each call. Writing it down changes neither the outcome nor the state (`execute_recorded`), and what the
executor knows after some commands is a function of the calls it made (`Progress.Follows`). -/
namespace VaultSync

namespace Call

/-- The entries that a status found to record. A status that failed found nothing out. -/
def pending? : Call → Option Nat
  | ⟨.status, _, .ok report⟩ => some report.pending
  | _ => none

/-- How the rebase of a pull ended. -/
def rebaseStatus? : Call → Option RebaseStatus
  | ⟨.pull _, _, .ok status⟩ => some status
  | _ => none

/-- Whether the call is a pull whose rebase stopped on conflicts. -/
def stops (call : Call) : Bool :=
  call.rebaseStatus? = some .stopped

/-- The ref updates that a push reported, rejected ones included. -/
def refUpdates : Call → List RefUpdate
  | ⟨.push .., _, .ok updates⟩ => updates
  | _ => []

/-- The failures of a call in the order in which they happen. Only a push can have several. -/
def failures : Call → List SyncError
  | ⟨command, _, .error e⟩ => [.command command.name e]
  | ⟨_, _, .crashed message⟩ => [.task (Reply.crashDetail message)]
  | ⟨.pull _, _, .ok status⟩ => if status = .stopped then [.pull .rebaseFailed] else []
  | ⟨.push .., _, .ok updates⟩ => (updates.filterMap RefUpdate.pushError?).map .push
  | ⟨.status, _, .ok _⟩ | ⟨.commit _, _, .ok _⟩ | ⟨.plain _, _, .ok _⟩ => []

end Call

/-- What the hooks are told of an outcome. -/
def SyncOutcome.tellings : SyncOutcome → List Entry
  | completed report => [.succeeded report]
  | cancelled => []
  | failed _ error _ => [.failed error]

/-- The call of an entry, if it is one. -/
def Entry.call? : Entry → Option Call
  | called call => some call
  | succeeded _ | failed _ => none

/-- A state with all that a run did so far, in order. -/
abbrev Transcript (σ : Type) := Logged Entry σ

namespace Transcript

variable {σ : Type}

/-- The calls of the backend, in order. -/
def calls (t : Transcript σ) : List Call :=
  t.log.filterMap Entry.call?

theorem calls_called (t : Transcript σ) (call : Call) (state : σ) :
    Transcript.calls ⟨t.log ++ [.called call], state⟩ = t.calls ++ [call] := by
  simp [calls, Entry.call?]

end Transcript

variable {σ : Type}

/-- A backend that writes down each call with its answer. -/
def Backend.recorded (backend : Backend σ) : Backend (Transcript σ) :=
  backend.logged id

/-- Hooks that write down what they are told. -/
def Hooks.recorded (hooks : Hooks σ) : Hooks (Transcript σ) :=
  hooks.logged id

/-- Of several errors the last is kept. -/
theorem Progress.foldl_fail (errors : List PushError) (progress : Progress) :
    errors.foldl (fun p e => p.fail (.push e)) progress =
      { progress with failure := ((errors.map SyncError.push).getLast?).or progress.failure } := by
  induction errors generalizing progress with
  | nil => rfl
  | cons error errors ih =>
      rw [List.foldl_cons, ih, List.map_cons, List.getLast?_cons]
      cases (errors.map SyncError.push).getLast? <;> rfl

/-- What a call adds to what is known. An answer that shows nothing of a kind keeps what was known. -/
theorem Progress.absorb_eq (progress : Progress) (call : Call) :
    progress.absorb call.command call.reply =
      { progress with
        changes := call.pending?.or progress.changes
        failure := call.failures.getLast?.or progress.failure
        halted := progress.halted || call.stops
        rebaseStatus := call.rebaseStatus?.or progress.rebaseStatus
        refUpdates := progress.refUpdates ++ call.refUpdates } := by
  obtain ⟨command, credential, reply⟩ := call
  cases reply with
  | error e => cases command <;> simp [absorb, fail, Call.pending?, Call.failures, Call.stops,
      Call.rebaseStatus?, Call.refUpdates]
  | crashed message => cases command <;> simp [absorb, fail, Call.pending?, Call.failures, Call.stops,
      Call.rebaseStatus?, Call.refUpdates]
  | ok value =>
      cases command with
      | pull remote =>
          by_cases h : value = RebaseStatus.stopped <;>
            simp [absorb, pulled, fail, h, Call.pending?, Call.failures, Call.stops, Call.rebaseStatus?,
              Call.refUpdates]
      | push remote branch force =>
          simp [absorb, pushed, foldl_fail, Call.pending?, Call.failures, Call.stops,
            Call.rebaseStatus?, Call.refUpdates]
      | status | commit message | plain command =>
          simp [absorb, Call.pending?, Call.failures, Call.stops, Call.rebaseStatus?, Call.refUpdates]

/-- What is known after a call, which counts as a command that was run. -/
def Progress.after (progress : Progress) (call : Call) : Progress :=
  let progress := progress.absorb call.command call.reply
  { progress with commandsRun := progress.commandsRun + 1 }

/-- What the executor knows is what its calls have shown: the latest status, the latest failure, whether
a rebase stopped, and what the report will say. -/
structure Progress.Follows (progress : Progress) (calls : List Call) : Prop where
  changes : progress.changes = (calls.filterMap Call.pending?).getLast?
  failure : progress.failure = (calls.flatMap Call.failures).getLast?
  halted : progress.halted = calls.any Call.stops
  commandsRun : progress.commandsRun = calls.length
  rebaseStatus : progress.rebaseStatus = (calls.filterMap Call.rebaseStatus?).getLast?
  refUpdates : progress.refUpdates = calls.flatMap Call.refUpdates

namespace Progress.Follows

variable {progress : Progress} {calls : List Call}

theorem start : Progress.start.Follows [] :=
  ⟨rfl, rfl, rfl, rfl, rfl, rfl⟩

theorem skipped (h : progress.Follows calls) :
    Progress.Follows { progress with commitSkipped := true } calls :=
  ⟨h.changes, h.failure, h.halted, h.commandsRun, h.rebaseStatus, h.refUpdates⟩

/-- Taking in an answer keeps up with the call that was answered. -/
theorem after (h : progress.Follows calls) (call : Call) :
    (progress.after call).Follows (calls ++ [call]) := by
  rw [Progress.after, Progress.absorb_eq]
  constructor
  · cases hCall : call.pending? <;> simp [h.changes, hCall]
  · simp [h.failure, List.getLast?_append]
  · simp [h.halted]
  · simp [h.commandsRun]
  · cases hCall : call.rebaseStatus? <;> simp [h.rebaseStatus, hCall]
  · simp [h.refUpdates]

end Progress.Follows

namespace Backend

variable (backend : Backend σ) (credential : Credential)

/-- A command that is left out is no call. -/
theorem step_recorded_of_skips {command : Command} {progress : Progress}
    (h : progress.skips command = true) (t : Transcript σ) :
    backend.recorded.step credential command progress t =
      ({ progress with commitSkipped := true }, t) := by
  simp [step, h]

/-- A command that is not left out is one call, and the executor takes in the answer to it. -/
theorem step_recorded {command : Command} {progress : Progress}
    (h : progress.skips command = false) (t : Transcript σ) :
    let call := backend.answered credential command t.state
    backend.recorded.step credential command progress t =
      (progress.after call, ⟨t.log ++ [.called call], (backend.perform command credential t.state).2⟩) := by
  simp [step, h, recorded, logged, answered, Progress.after]

/-- Writing down what a command does changes neither what is known after it nor the state. -/
theorem step_forget (command : Command) (progress : Progress) (t : Transcript σ) :
    let run := backend.recorded.step credential command progress t
    (run.1, run.2.state) = backend.step credential command progress t.state := by
  cases h : progress.skips command with
  | true => simp [step, h]
  | false => simp [step, h, recorded, logged, answered]

/-- A recorded run does what the run does. -/
theorem steps_forget (steps : List Command) (progress : Progress) (t : Transcript σ) :
    let run := backend.recorded.steps credential steps progress t
    (run.1, run.2.state) = backend.steps credential steps progress t.state := by
  induction steps generalizing progress t with
  | nil => rfl
  | cons command steps ih =>
      dsimp only [Backend.steps]
      by_cases hHalted : progress.halted
      · simp [hHalted]
      · rw [if_neg hHalted, if_neg hHalted, ← backend.step_forget credential command progress t]
        exact ih _ _

/-- The outcome is that of the steps; hooks do not matter to it. -/
theorem execute_outcome {τ : Type} (backend : Backend τ) (hooks : Hooks τ) (operation : Operation)
    (state : τ) :
    (backend.execute hooks operation credential state).1 =
      (backend.steps credential operation.steps .start state).1.outcome operation.kind := by
  dsimp only [execute]
  cases Progress.outcome _ operation.kind <;> rfl

/-- What the hooks are told is told once, behind all calls. -/
theorem execute_log (hooks : Hooks σ) (operation : Operation) (t : Transcript σ) :
    let run := backend.recorded.execute hooks.recorded operation credential t
    run.2.log =
      (backend.recorded.steps credential operation.steps .start t).2.log ++ run.1.tellings := by
  dsimp only [execute]
  cases Progress.outcome _ operation.kind with
  | completed report => rfl
  | cancelled => simp [SyncOutcome.tellings]
  | failed kind error cause => rfl

/-- The calls of an execution are those of its steps. -/
theorem execute_calls (hooks : Hooks σ) (operation : Operation) (t : Transcript σ) :
    (backend.recorded.execute hooks.recorded operation credential t).2.calls =
      (backend.recorded.steps credential operation.steps .start t).2.calls := by
  rw [Transcript.calls, execute_log, List.filterMap_append]
  cases (backend.recorded.execute hooks.recorded operation credential t).1 <;>
    simp [SyncOutcome.tellings, Entry.call?, Transcript.calls]

/-- Writing down a run changes neither its outcome nor the state that it leaves. -/
theorem execute_recorded (hooks : Hooks σ) (operation : Operation) (t : Transcript σ) :
    let run := backend.recorded.execute hooks.recorded operation credential t
    (run.1, run.2.state) = backend.execute hooks operation credential t.state := by
  have hSteps := backend.steps_forget credential operation.steps .start t
  dsimp only [execute]
  rw [← hSteps]
  cases hOutcome : Progress.outcome _ operation.kind with
  | completed report => simp [Hooks.recorded, Hooks.logged]
  | cancelled => simp
  | failed kind error cause => simp [Hooks.recorded, Hooks.logged]

/-- The outcome of a run is the one that its recording ends with. -/
theorem outcome_recorded (hooks : Hooks σ) (operation : Operation) (state : σ) :
    (backend.execute hooks operation credential state).1 =
      (backend.recorded.execute hooks.recorded operation credential (.start state)).1 :=
  congrArg Prod.fst (backend.execute_recorded credential hooks operation (.start state)).symm

/-! ### How a run ends -/

variable {backend credential} {operation : Operation} {progress : Progress}
  {state state' : σ} {error : SyncError}

/-- A run without a failure is completed. -/
theorem execute_of_clear (hooks : Hooks σ)
    (hSteps : backend.steps credential operation.steps .start state = (progress, state'))
    (h : progress.failure = none) :
    ∃ report, backend.execute hooks operation credential state =
      (.completed report, hooks.onSuccess report state') := by
  simp [execute, hSteps, Progress.outcome, h]

/-- The hooks are not told of a run that was cancelled. -/
theorem execute_of_cancelled (hooks : Hooks σ)
    (hSteps : backend.steps credential operation.steps .start state = (progress, state'))
    (h : progress.failure = some error) (hSeen : error.isUserCancelled = true) :
    backend.execute hooks operation credential state = (.cancelled, state') := by
  simp [execute, hSteps, Progress.outcome, h, hSeen]

/-- A failure that is no cancellation is told to the hooks with the state it left. -/
theorem execute_of_failure (hooks : Hooks σ)
    (hSteps : backend.steps credential operation.steps .start state = (progress, state'))
    (h : progress.failure = some error) (hKept : error.isUserCancelled = false) :
    backend.execute hooks operation credential state =
      (.failed operation.kind error error.root.message, hooks.onError error state') := by
  simp [execute, hSteps, Progress.outcome, h, hKept]

end Backend

end VaultSync
