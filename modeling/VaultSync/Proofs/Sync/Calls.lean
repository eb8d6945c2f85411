import VaultSync.Proofs.Sync.Transcript

/-! Which steps of an operation reach the backend. Each step is called in its turn or left out, and what
decides is stated on the answers to the calls before it, not on what the executor keeps of them. -/
namespace VaultSync

/-- A command has no call after some others if a rebase stopped in one of them, or if it is a commit and
the latest status that succeeded found nothing to record. -/
def Omitted (calls : List Call) (command : Command) : Prop :=
  (∃ call ∈ calls, call.stops) ∨
    (∃ message, command = .commit message) ∧ (calls.filterMap Call.pending?).getLast? = some 0

/-- What became of each step of an operation, in order: its call, or none. A call has the step's own
arguments, and the credential of the run if it takes one. -/
structure Plan (credential : Credential) (before : List Call) (steps : List Command)
    (slots : List (Option Call)) : Prop where
  length_eq : slots.length = steps.length
  called : ∀ (k : Nat) (call : Call), slots[k]? = some (some call) →
    steps[k]? = some call.command ∧ call.credential = call.command.received credential
  left_out : ∀ (k : Nat) (command : Command), steps[k]? = some command →
    (slots[k]? = some none ↔ Omitted (before ++ (slots.take k).reduceOption) command)

namespace Plan

variable {credential : Credential} {before : List Call} {command : Command} {steps : List Command}
  {slots : List (Option Call)}

theorem nil (credential : Credential) (before : List Call) : Plan credential before [] [] :=
  ⟨rfl, by simp, by simp⟩

/-- A step that is left out adds no call for those behind it. -/
theorem cons_none (h : Plan credential before steps slots) (hOmitted : Omitted before command) :
    Plan credential before (command :: steps) (none :: slots) := by
  refine ⟨by simp [h.length_eq], ?_, ?_⟩
  · intro k call hSlot
    cases k with
    | zero => simp at hSlot
    | succ k => exact h.called k call hSlot
  · intro k other hStep
    cases k with
    | zero =>
        obtain rfl : command = other := by simpa using hStep
        simpa using hOmitted
    | succ k => simpa using h.left_out k other (by simpa using hStep)

/-- A step that is called is among the calls before those behind it. -/
theorem cons_some {call : Call} (h : Plan credential (before ++ [call]) steps slots)
    (hCalled : ¬ Omitted before call.command)
    (hCredential : call.credential = call.command.received credential) :
    Plan credential before (call.command :: steps) (some call :: slots) := by
  refine ⟨by simp [h.length_eq], ?_, ?_⟩
  · intro k other hSlot
    cases k with
    | zero =>
        obtain rfl : call = other := by simpa using hSlot
        exact ⟨rfl, hCredential⟩
    | succ k => exact h.called k other hSlot
  · intro k other hStep
    cases k with
    | zero =>
        obtain rfl : call.command = other := by simpa using hStep
        simpa using hCalled
    | succ k => simpa using h.left_out k other (by simpa using hStep)

/-- Behind a stopped rebase every step is left out. -/
theorem replicate_none (credential : Credential) (steps : List Command)
    (hStopped : ∃ call ∈ before, call.stops) :
    Plan credential before steps (List.replicate steps.length none) := by
  induction steps with
  | nil => exact nil credential before
  | cons command steps ih => exact ih.cons_none (.inl hStopped)

end Plan

namespace Progress.Follows

variable {progress : Progress} {calls : List Call}

/-- A run is halted exactly when one of its calls stops it. -/
theorem halted_iff (h : progress.Follows calls) :
    progress.halted = true ↔ ∃ call ∈ calls, call.stops := by
  rw [h.halted, List.any_eq_true]

/-- As long as no rebase stopped, the executor leaves out what has no call. -/
theorem skips_iff (h : progress.Follows calls) (hHalted : progress.halted = false)
    (command : Command) : progress.skips command = true ↔ Omitted calls command := by
  have hStopped : ¬ ∃ call ∈ calls, call.stops := by
    rw [← h.halted_iff, hHalted]
    simp
  cases command <;> simp [Progress.skips, Omitted, hStopped, h.changes]

end Progress.Follows

variable {σ : Type} (backend : Backend σ) (credential : Credential)

/-- Running steps calls those that the answers so far do not omit, and the executor keeps up. -/
theorem Backend.steps_plan (steps : List Command) (progress : Progress) (t : Transcript σ)
    (h : progress.Follows t.calls) :
    ∃ slots, Plan credential t.calls steps slots ∧
      (backend.recorded.steps credential steps progress t).2.log =
        t.log ++ slots.reduceOption.map .called ∧
      (backend.recorded.steps credential steps progress t).1.Follows
        (t.calls ++ slots.reduceOption) := by
  -- the invariant is what the progress knows of the calls so far; each step keeps it and adds a slot
  induction steps generalizing progress t with
  | nil => exact ⟨[], .nil credential t.calls, by simp [Backend.steps], by simpa [Backend.steps] using h⟩
  | cons command steps ih =>
      rw [Backend.steps]
      cases hHalted : progress.halted with
      | true =>
          refine ⟨_, .replicate_none credential (command :: steps) (h.halted_iff.1 hHalted), ?_, ?_⟩
          · simp [List.reduceOption_replicate_none]
          · simpa [List.reduceOption_replicate_none] using h
      | false =>
          simp only [Bool.false_eq_true, if_false]
          cases hSkips : progress.skips command with
          | true =>
              rw [backend.step_recorded_of_skips credential hSkips]
              obtain ⟨slots, hPlan, hEntries, hFollows⟩ := ih _ t h.skipped
              refine ⟨none :: slots, hPlan.cons_none ((h.skips_iff hHalted command).1 hSkips), ?_, ?_⟩
              · simpa using hEntries
              · simpa using hFollows
          | false =>
              rw [backend.step_recorded credential hSkips]
              have hCalled : ¬ Omitted t.calls command := by
                rw [← h.skips_iff hHalted, hSkips]
                simp
              obtain ⟨slots, hPlan, hEntries, hFollows⟩ := ih _
                ⟨t.log ++ [.called (backend.answered credential command t.state)],
                  (backend.perform command credential t.state).2⟩
                (by simpa only [Transcript.calls_called] using h.after _)
              rw [Transcript.calls_called] at hPlan hFollows
              refine ⟨some _ :: slots, hPlan.cons_some hCalled rfl, ?_, ?_⟩
              · simpa using hEntries
              · simpa using hFollows

/-- The calls of a run from its start follow the plan of its steps. -/
theorem Backend.steps_plan_start (steps : List Command) (state : σ) :
    ∃ slots, Plan credential [] steps slots ∧
      (backend.recorded.steps credential steps .start (.start state)).2.log =
        slots.reduceOption.map .called ∧
      (backend.recorded.steps credential steps .start (.start state)).2.calls = slots.reduceOption ∧
      (backend.recorded.steps credential steps .start (.start state)).1.Follows slots.reduceOption := by
  obtain ⟨slots, hPlan, hEntries, hFollows⟩ :=
    backend.steps_plan credential steps .start (.start state) .start
  refine ⟨slots, hPlan, hEntries, ?_, hFollows⟩
  rw [Transcript.calls, hEntries]
  simp [Logged.start, Function.comp_def, Entry.call?]

/-- The calls of a run are exactly the steps of its operation in order, each at most once, with its own
arguments and the credential of the run. A step is left out if and only if a rebase stopped in a call
before it, or it is a commit and the latest status before it that succeeded found nothing to record. So
no other failure, rejection or crash removes or reorders a later step. -/
theorem execute_calls_planned (hooks : Hooks σ) (operation : Operation) (state : σ) :
    ∃ slots, Plan credential [] operation.steps slots ∧
      (backend.recorded.execute hooks.recorded operation credential (.start state)).2.calls =
        slots.reduceOption := by
  obtain ⟨slots, hPlan, -, hCalls, -⟩ :=
    backend.steps_plan_start credential operation.steps state
  exact ⟨slots, hPlan, (backend.execute_calls credential hooks operation _).trans hCalls⟩

end VaultSync
