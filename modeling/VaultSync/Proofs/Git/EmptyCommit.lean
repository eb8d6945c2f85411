import VaultSync.Proofs.Git.FailedReset
import VaultSync.Proofs.Sync.Recording

/-! What a sync records. Its commit holds what is in the index by then. After staging and a status that have
both succeeded that is not what the commit before it holds, since the status sees something to record only
where the files differ from it. A step that fails does not hold back the commit: what a status counts after
staging has failed need not be in the index, and without a status nothing is counted at all. -/
namespace VaultSync.Git

namespace Workspace

variable {author : Option Person} {backend : Backend Workspace} {w : Workspace}

/-- A command is performed as in a workspace, or it goes wrong and leaves everything as it was. -/
def PerformsOrFails (author : Option Person) (backend : Backend Workspace) (command : Command) : Prop :=
  ∀ credential w,
    let performed := backend.perform command credential w
    performed = (Workspace.backend author).perform command credential w ∨
      (∀ value, performed.1 ≠ .ok value) ∧ performed.2 = w

/-- A backend of workspaces in which each step of a sync up to its commit may go wrong at any time. What
becomes of the pull and the push is left open. -/
structure RecordingMayFail (author : Option Person) (backend : Backend Workspace) : Prop where
  staging : PerformsOr author backend .addAll StagingBroken
  counting : PerformsOrFails author backend .status
  recording : ∀ message, PerformsOrFails author backend (.commit message)

theorem recordingMayFail_backend (author : Option Person) :
    RecordingMayFail author (Workspace.backend author) where
  staging := fun _ _ => .inl rfl
  counting := fun _ _ => .inl rfl
  recording := fun _ _ _ => .inl rfl

namespace RecordingMayFail

variable (hBackend : RecordingMayFail author backend)

include hBackend

/-- Staging and a status change at most the index, whether they fail or not. -/
theorem counted_rest (credential : Credential) (w : Workspace) :
    let added := backend.perform (.plain .addAll) credential w
    let c := (backend.perform .status credential added.2).2.checkout
    c = { w.checkout with index := c.index } := by
  intro added c
  have hAdded : added.2.checkout = { w.checkout with index := added.2.checkout.index } :=
    checkout_of_staging hBackend.staging credential w
  have hCounted : c = added.2.checkout := by
    rcases hBackend.counting credential added.2 with hPerformed | ⟨-, hSame⟩
    · exact congrArg (·.2.checkout) hPerformed
    · exact congrArg checkout hSame
  rw [hCounted]
  exact hAdded

/-- A status that sees something to record after staging sees that the index is not the last commit's. -/
theorem staged_ne_headTree {credential : Credential} {report : StatusReport}
    (hAdded : (backend.perform (.plain .addAll) credential w).1 = .ok ())
    (hCounted : (backend.perform .status credential (backend.perform (.plain .addAll) credential w).2).1 =
      .ok report)
    (hPending : report.pending ≠ 0) :
    (backend.perform .status credential
      (backend.perform (.plain .addAll) credential w).2).2.checkout.index.staged ≠ w.checkout.headTree := by
  have hStages := (hBackend.staging credential w).resolve_right fun h => h.1 hAdded
  rw [hStages] at hAdded hCounted ⊢
  have hStatus := (hBackend.counting credential _).resolve_right fun h => h.1 report hCounted
  rw [hStatus] at hCounted ⊢
  obtain ⟨hAdd, -⟩ := Prod.mk.inj (perform_eq_ok (Prod.ext hAdded rfl))
  obtain ⟨hCount, -⟩ := Prod.mk.inj (perform_eq_ok (Prod.ext hCounted rfl))
  obtain ⟨-, hStaged⟩ := Checkout.addAll_eq_ok (Prod.ext hAdd rfl)
  have hReport : ({ w.checkout with index := w.checkout.stagedAll } : Checkout).status = .ok report :=
    (congrArg Checkout.status hStaged).symm.trans hCount
  have hHead : w.checkout.head ≠ .unreadable := fun hHead => by
    rw [Checkout.status, if_pos hHead] at hReport
    cases hReport
  obtain ⟨report', hReport', hNothing⟩ := w.checkout.status_of_stagedAll hHead
  obtain rfl := Except.ok.inj (hReport.symm.trans hReport')
  have hIndex : w.checkout.addAll.2.index.staged = w.checkout.stagedAll.staged :=
    congrArg (fun c : Checkout => c.index.staged) hStaged
  exact fun hSame => hPending (hNothing.2 (hIndex.symm.trans hSame))

/-- The commit step makes no commit, or one that holds what is in the index. -/
theorem recorded (message : String) (credential : Credential) (w : Workspace) :
    let recorded := (backend.perform (.commit message) credential w).2.checkout
    recorded = w.checkout ∨ ∃ new, recorded.headCommit? = some new ∧
      new.parents = w.checkout.headCommit?.toList ∧ new.tree = w.checkout.index.staged := by
  intro recorded
  rcases hBackend.recording message credential w with hPerformed | ⟨-, hSame⟩
  · have hRecorded : recorded = (w.checkout.commit author message).2 := congrArg (·.2.checkout) hPerformed
    rw [hRecorded]
    rcases w.checkout.commit_cases author message with
      ⟨person, repo, -, -, -, hRepo, hCommit⟩ | ⟨e, hCommit⟩
    · rw [hCommit]
      exact .inr ⟨_, (Repository.advance_eq_some hRepo).2, Commit.parents_on .., rfl⟩
    · rw [hCommit]
      exact .inl rfl
  · exact .inl (congrArg checkout hSame)

end RecordingMayFail

open Checkout (standingAt writer writes)

end Workspace

end VaultSync.Git
