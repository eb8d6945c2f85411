import VaultSync.Proofs.Sync.Outcome
import VaultSync.Sync.Script

/-! When a rollback is asked for. The answer is read off the last failure alone, which could hide a push that
was rejected behind a later failure. In the operations that can be built a push comes last, so no call is
left to hide it: a rollback is asked for exactly when a ref update was rejected. -/
namespace VaultSync

/-! ### Where pushes stand -/

def Command.isPush : Command → Bool
  | push .. => true
  | status | commit _ | pull _ | plain _ => false

namespace Operation

/-- The operations that can be built. Their steps are fixed but for the arguments. -/
inductive Built : Operation → Prop where
  | clone (url workTree : String) : Built (.clone url workTree)
  | pull (remote : String) : Built (.pull remote)
  | push (remote : String) : Built (.push remote)
  | sync (remote message : String) : Built (.sync remote message)
  | resetToRemote (remote branch : String) : Built (.resetToRemote remote branch)
  | breakOutOfDetached (remote sideBranch : String) : Built (.breakOutOfDetached remote sideBranch)

/-- No command comes behind a push. -/
def PushesLast (operation : Operation) : Prop :=
  operation.steps.Pairwise fun earlier _ => earlier.isPush = false

/-- In an operation that is built nothing follows a push. -/
theorem Built.pushesLast {operation : Operation} (h : operation.Built) : operation.PushesLast := by
  cases h with
  | clone | pull | push => exact List.pairwise_singleton _ _
  | sync | resetToRemote | breakOutOfDetached =>
      simp [PushesLast, Operation.sync, Operation.resetToRemote, Operation.breakOutOfDetached,
        Command.isPush]

end Operation

/-- Slots that stand beside steps hold calls of some of them, in their order. -/
theorem commands_sublist_of_slots {slots : List (Option Call)} {steps : List Command}
    (hLength : slots.length = steps.length)
    (hCalled : ∀ (k : Nat) (call : Call), slots[k]? = some (some call) → steps[k]? = some call.command) :
    (slots.reduceOption.map Call.command).Sublist steps := by
  induction slots generalizing steps with
  | nil => exact List.nil_sublist steps
  | cons slot slots ih =>
      cases steps with
      | nil => simp at hLength
      | cons command steps =>
          have hRest := ih (Nat.succ.inj hLength) fun k call hSlot => hCalled (k + 1) call hSlot
          cases slot with
          | none => exact hRest.cons command
          | some call =>
              obtain rfl : command = call.command := Option.some.inj (hCalled 0 call rfl)
              exact hRest.cons_cons call.command

/-- The calls of a plan are steps in their order. -/
theorem Plan.commands_sublist {credential : Credential} {before : List Call} {steps : List Command}
    {slots : List (Option Call)} (h : Plan credential before steps slots) :
    (slots.reduceOption.map Call.command).Sublist steps :=
  commands_sublist_of_slots h.length_eq fun k call hSlot => (h.called k call hSlot).1

/-! ### What a push leaves behind -/

namespace Call

variable {call : Call} {error : PushError}

/-- Only a push reports ref updates. -/
theorem refUpdates_of_not_isPush (h : call.command.isPush = false) : call.refUpdates = [] := by
  obtain ⟨command, credential, reply⟩ := call
  cases command with
  | push => cases h
  | status | commit | pull | plain => rfl

/-- Only a push fails with the error of a push. -/
theorem push_notMem_failures (h : call.command.isPush = false) : .push error ∉ call.failures := by
  obtain ⟨command, credential, reply⟩ := call
  cases reply with
  | error e => simp [failures]
  | crashed message => simp [failures]
  | ok value =>
      cases command with
      | push => cases h
      | pull => by_cases hStopped : value = RebaseStatus.stopped <;> simp [failures, hStopped]
      | status | commit | plain => simp [failures]

/-- A call leaves a rejected push as its last failure if its ref updates have a rejected one, and then that
of the last one. -/
theorem getLast?_failures_eq_push_iff :
    call.failures.getLast? = some (.push error) ↔
      (call.refUpdates.filterMap RefUpdate.pushError?).getLast? = some error := by
  obtain ⟨command, credential, reply⟩ := call
  cases reply with
  | error e => cases command <;> simp [failures, refUpdates]
  | crashed message => cases command <;> simp [failures, refUpdates]
  | ok value =>
      cases command with
      | push =>
          rw [failures, refUpdates, List.getLast?_map]
          cases (List.filterMap RefUpdate.pushError? value).getLast? <;> simp
      | pull => by_cases hStopped : value = RebaseStatus.stopped <;> simp [failures, refUpdates, hStopped]
      | status | commit | plain => simp [failures, refUpdates]

end Call

/-- Where no call comes behind a push, no failure hides those of a push. -/
theorem getLast?_failures_eq_push_iff_of_pushesLast {calls : List Call} {error : PushError}
    (h : (calls.map Call.command).Pairwise fun earlier _ => earlier.isPush = false) :
    (calls.flatMap Call.failures).getLast? = some (.push error) ↔
      ∃ call ∈ calls, (call.refUpdates.filterMap RefUpdate.pushError?).getLast? = some error := by
  rcases List.eq_nil_or_concat' calls with rfl | ⟨front, last, rfl⟩
  · simp
  · rw [List.pairwise_map, List.pairwise_append] at h
    have hFront (call : Call) (hCall : call ∈ front) : call.command.isPush = false :=
      h.2.2 call hCall last (List.mem_singleton_self last)
    have hHidden : (front.flatMap Call.failures).getLast? ≠ some (.push error) := by
      intro hLast
      obtain ⟨call, hCall, hMem⟩ := List.mem_flatMap.1 (List.mem_of_getLast? hLast)
      exact Call.push_notMem_failures (hFront call hCall) hMem
    have hUpdates (call : Call) (hCall : call ∈ front) :
        (call.refUpdates.filterMap RefUpdate.pushError?).getLast? ≠ some error := by
      simp [Call.refUpdates_of_not_isPush (hFront call hCall)]
    simp only [List.flatMap_append, List.flatMap_singleton, List.getLast?_append, Option.or_eq_some_iff,
      hHidden, and_false, or_false, List.mem_append, List.mem_singleton, or_and_right, exists_or,
      exists_eq_left, Call.getLast?_failures_eq_push_iff]
    exact (or_iff_right fun ⟨call, hCall, hLast⟩ => hUpdates call hCall hLast).symm

/-! ### The outcome -/

theorem SyncError.isUserCancelled_push (error : PushError) : (push error).isUserCancelled = false := rfl

namespace SyncOutcome.IsDecidedBy

variable {outcome : SyncOutcome} {kind : OperationKind} {failures : List SyncError}

/-- An outcome that a push decides fails with its error. -/
theorem failed_of_push {error : PushError} (h : outcome.IsDecidedBy kind failures)
    (hLast : failures.getLast? = some (.push error)) :
    outcome = .failed kind (.push error) error.message := by
  rw [h.2 _ hLast, SyncError.isUserCancelled_push]
  rfl

/-- A rollback is asked for if and only if the last failure is a push that was rejected. -/
theorem rollbackRequested_iff (h : outcome.IsDecidedBy kind failures) :
    outcome.rollbackRequested = true ↔ ∃ error, failures.getLast? = some (.push error) := by
  constructor
  · intro hRollback
    cases hLast : failures.getLast? with
    | none =>
        obtain ⟨report, rfl⟩ := h.1.1 (List.getLast?_eq_none_iff.1 hLast)
        cases hRollback
    | some failure =>
        rw [h.2 failure hLast] at hRollback
        split at hRollback
        · cases hRollback
        · cases failure with
          | push error => exact ⟨error, rfl⟩
          | pull error => cases hRollback
          | command name source => cases hRollback
          | task detail => cases hRollback
  · rintro ⟨error, hLast⟩
    rw [h.failed_of_push hLast]
    rfl

end SyncOutcome.IsDecidedBy

/-- The last rejected ref update of a list decides which failure a push is said to have. -/
theorem RefUpdate.exists_rejected_iff {updates : List RefUpdate} :
    (∃ update ∈ updates, update.pushError? ≠ none) ↔
      ∃ error, (updates.filterMap pushError?).getLast? = some error := by
  rw [← Option.ne_none_iff_exists', ne_eq, List.getLast?_eq_none_iff, List.filterMap_eq_nil_iff]
  simp

variable {σ : Type} (backend : Backend σ) (credential : Credential)

/-- A run of an operation that can be built asks for a rollback if and only if its push was called and
reported a ref update that was rejected, whatever failed before it. It has then failed, of the last such
update: it is neither completed nor cancelled. -/
theorem execute_rollback_iff_rejected (hooks : Hooks σ) {operation : Operation}
    (hBuilt : operation.Built) (state : σ) :
    let calls := (backend.recorded.execute hooks.recorded operation credential (.start state)).2.calls
    let outcome := (backend.execute hooks operation credential state).1
    (outcome.rollbackRequested = true ↔
      ∃ call ∈ calls, call.command.isPush = true ∧
        ∃ update ∈ call.refUpdates, update.pushError? ≠ none) ∧
    ∀ call ∈ calls, ∀ error, (call.refUpdates.filterMap RefUpdate.pushError?).getLast? = some error →
      outcome = .failed operation.kind (.push error) error.message := by
  intro calls outcome
  obtain ⟨slots, hPlan, -, hCalls : calls = slots.reduceOption, hDecided⟩ :=
    backend.execute_told credential hooks operation state
  rw [← hCalls] at hDecided
  -- the calls are some of the steps in their order, so a push is the last of them as well
  have hLast : (calls.map Call.command).Pairwise fun earlier _ => earlier.isPush = false :=
    hBuilt.pushesLast.sublist (hCalls ▸ hPlan.commands_sublist)
  refine ⟨?_, fun call hCall error hError => ?_⟩
  · rw [hDecided.rollbackRequested_iff]
    constructor
    · rintro ⟨error, hPush⟩
      obtain ⟨call, hCall, hError⟩ := (getLast?_failures_eq_push_iff_of_pushesLast hLast).1 hPush
      refine ⟨call, hCall, ?_, RefUpdate.exists_rejected_iff.2 ⟨error, hError⟩⟩
      cases hPushes : call.command.isPush with
      | true => rfl
      | false => simp [Call.refUpdates_of_not_isPush hPushes] at hError
    · rintro ⟨call, hCall, -, hRejected⟩
      obtain ⟨error, hError⟩ := RefUpdate.exists_rejected_iff.1 hRejected
      exact ⟨error, (getLast?_failures_eq_push_iff_of_pushesLast hLast).2 ⟨call, hCall, hError⟩⟩
  · exact hDecided.failed_of_push
      ((getLast?_failures_eq_push_iff_of_pushesLast hLast).2 ⟨call, hCall, hError⟩)

/-- A script whose staging is cancelled, and whose first push reports some updates. -/
def Script.pushReports (updates : List RefUpdate) : Script where
  files := ⟨[], []⟩
  answers := []
  choices := []
  provisions := []
  keyTools := ⟨none, none, none, none⟩
  statuses := [.ok ⟨1, 0, 0⟩]
  commits := []
  pulls := []
  pushes := [.ok updates]
  others := [("add", [.error (.disconnected .authCancelledByUser)])]

/-- A sync whose staging was cancelled fails of the second rejection of its push. -/
theorem execute_rollback_iff_rejected_sync :
    let updates : List RefUpdate := [⟨"refs/heads/master", .rejectedNonFastForward, none⟩,
      ⟨"refs/heads/notes", .rejectedOtherReason, some "hook declined"⟩, ⟨"refs/tags/v1", .upToDate, none⟩]
    let outcome := (Script.backend.execute .silent (.sync "origin" "note") (.password "alice" "pw")
      (.pushReports updates)).1
    (Operation.sync "origin" "note").Built ∧ outcome.rollbackRequested = true ∧
      outcome = .failed .sync (.push (.generic "hook declined")) "Push failed: hook declined" := by
  intro updates outcome
  have hBuilt : (Operation.sync "origin" "note").Built := .sync "origin" "note"
  obtain ⟨hRollback, hFailed⟩ := execute_rollback_iff_rejected Script.backend (.password "alice" "pw")
    .silent hBuilt (.pushReports updates)
  -- The push is the last of the five calls.
  have hCall : (⟨.push "origin" none false, some (.password "alice" "pw"), .ok updates⟩ : Call) ∈
      (Script.backend.recorded.execute Hooks.silent.recorded (.sync "origin" "note")
        (.password "alice" "pw") (.start (.pushReports updates))).2.calls :=
    List.mem_of_getElem? (show _[4]? = _ from rfl)
  exact ⟨hBuilt, hRollback.2 ⟨_, hCall, rfl, _, List.mem_cons_self, Option.some_ne_none _⟩,
    hFailed _ hCall (.generic "hook declined") rfl⟩

end VaultSync
