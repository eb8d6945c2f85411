import VaultSync.Proofs.Git.Publication
import VaultSync.Proofs.Git.Recovery

/-! What the two ways to recover make of a repository that is on no branch. Breaking out leads back to a
branch exactly when there is a rebase to give up. A reset to the remote never does: it moves the
repository itself, and forgets which branch was being rebased. -/
namespace VaultSync.Git

namespace Checkout

variable {c c' : Checkout} {commit current : Commit} {branch side step target : String}

/-- Nothing is in progress after what differs from a commit was thrown away, and the checkout stands there. A
checkout on no branch is still on none. -/
theorem resetTo_eq_ok (h : c.resetTo step commit = (.ok (), c')) :
    c'.isRebasing = false ∧ c'.headCommit? = some commit ∧
      (∀ branch, c.head = .branch branch → c'.head = .branch branch) ∧
      ∀ current, c.head = .detached current → c'.head = .detached commit := by
  rw [resetTo] at h
  dsimp only at h
  split at h
  · cases h
  · rename_i written hWrite
    split at h
    · cases h
    · rename_i advanced hAdvance
      obtain ⟨-, rfl⟩ := Prod.mk.inj h
      obtain ⟨repo, hRepo, rfl⟩ := within_eq_some_iff.1 hWrite
      obtain ⟨-, rfl⟩ := Repository.writeIndex_eq_some_iff.1 hRepo
      obtain ⟨repo, hRepo, rfl⟩ := within_eq_some_iff.1 hAdvance
      -- a reset moves the branch that `HEAD` is on, or else `HEAD` itself
      refine ⟨Repository.isRebasing_clearProgress repo, (Repository.advance_eq_some hRepo).2, ?_, ?_⟩
      · intro branch hHead
        rcases Repository.advance_head hRepo with ⟨name, hName, hStays⟩ | ⟨other, hOther, -⟩
        · exact hStays.trans (hName.symm.trans hHead)
        · cases hOther.symm.trans hHead
      · intro current hHead
        rcases Repository.advance_head hRepo with ⟨name, hName, -⟩ | ⟨other, -, hMoved⟩
        · cases hName.symm.trans hHead
        · exact hMoved

/-- An abort that succeeds had nothing to abort, or went back to the branch and reset to its old tip. -/
theorem abortRebase_eq_ok (h : c.abortRebase = (.ok (), c')) :
    (c.abortable? = none ∧ c' = c) ∨ ∃ rebase, ∃ moved : Checkout, c.abortable? = some rebase ∧
      moved.head = .branch rebase.branch ∧ moved.resetTo "abort rebase" rebase.tip = (.ok (), c') := by
  cases hRebase : c.abortable? with
  | none =>
      rw [abortRebase] at h
      split at h
      · exact .inl ⟨rfl, (Prod.mk.inj h).2.symm⟩
      · rename_i hNoMails
        rw [abortable?, if_neg hNoMails] at hRebase
        rw [hRebase] at h
        exact .inl ⟨rfl, (Prod.mk.inj h).2.symm⟩
  | some rebase =>
      rw [abortRebase_of_abortable hRebase] at h
      split at h
      · cases h
      · rename_i moved hMove
        obtain ⟨repo, hRepo, rfl⟩ := within_eq_some_iff.1 hMove
        obtain ⟨-, rfl⟩ := Repository.moveTo_eq_some_iff.1 hRepo
        exact .inr ⟨rebase, _, rfl, rfl, h⟩

/-- A branch that was made is a new name for the commit of `HEAD`. -/
theorem createBranch_eq_ok (h : c.createBranch side = (.ok (), c')) :
    ∃ commit, c.headCommit? = some commit ∧ c.refs.get? (.branch side) = none ∧
      c' = { c with refs := c.refs.set (.branch side) commit } := by
  rw [createBranch] at h
  split at h
  · cases h
  · rename_i commit hCommit
    split at h
    · cases h
    · rename_i hNew
      split at h
      · cases h
      · rename_i created hCreate
        obtain ⟨-, rfl⟩ := Prod.mk.inj h
        obtain ⟨repo, hRepo, rfl⟩ := within_eq_some_iff.1 hCreate
        obtain ⟨-, -, rfl⟩ := Repository.point_eq_some_iff.1 hRepo
        refine ⟨commit, hCommit, ?_, rfl⟩
        rw [Bool.or_eq_true, not_or, Option.isSome_iff_ne_none, not_not] at hNew
        exact hNew.2

/-- A hard reset that succeeds has found its target and reset to it. -/
theorem resetHard_eq_ok (h : c.resetHard target = (.ok (), c')) :
    ∃ commit, c.resolve? target = some commit ∧ c.resetTo "reset" commit = (.ok (), c') := by
  rw [resetHard] at h
  split at h
  · cases h
  · rename_i commit hResolved
    exact ⟨commit, hResolved, h⟩

end Checkout

namespace Workspace

variable {w w' : Workspace} {author : Option Person} {remote branch side : String} {commit : Commit}
  {credential : Credential} {report : SyncReport}

/-- Makes the store what a branch of the remote has. -/
def resetToRemote (author : Option Person) (remote branch : String) (credential : Credential) (w : Workspace) :
    SyncOutcome × Workspace :=
  (backend author).execute .silent (Operation.resetToRemote remote branch) credential w

/-- Pulls and pushes of the current branch are refused, with the advice to recover. -/
def Refuses (w : Workspace) : Prop :=
  ∀ author remote force,
    w.checkout.pull author w.reach remote = (.error (.failed Checkout.detachedMessage), w.checkout) ∧
    w.push remote none force = (.error (.failed Checkout.detachedMessage), w)

/-- A sync refuses to work on a detached `HEAD`. -/
theorem refuses_of_detached (h : w.checkout.head = .detached commit) : w.Refuses := by
  intro author remote force
  have hBranch : w.checkout.currentBranch = .error (.failed Checkout.detachedMessage) := by
    rw [Checkout.currentBranch, h]
  constructor
  · rw [Checkout.pull, hBranch]
  · rw [push, Option.map_none, Option.getD_none, hBranch]

/-- Breaking out gives up a rebase and makes a branch there. The push changes no branch. -/
theorem breakOut_completed (h : breakOut author remote side credential w = (.completed report, w')) :
    ∃ aborted, w.checkout.abortRebase = (.ok (), aborted) ∧ aborted.refs.get? (.branch side) = none ∧
      w'.checkout = { aborted with refs := w'.checkout.refs } ∧
      ∀ name, name ≠ side → w'.checkout.refs.get? (.branch name) = aborted.refs.get? (.branch name) := by
  have hAborts : w.performPlain .rebaseAbort = w.locally Checkout.abortRebase := rfl
  obtain ⟨aborted, hAbort, hRest⟩ := locally_of_completes hAborts (Backend.completes_of_execute h)
  have hCreates (w : Workspace) :
      w.performPlain (.createBranch side) = w.locally (Checkout.createBranch side) := rfl
  obtain ⟨created, hCreate, hRest⟩ := locally_of_completes (hCreates _) hRest
  obtain ⟨commit, -, hNew, rfl⟩ := Checkout.createBranch_eq_ok hCreate
  obtain ⟨branch, tip, -, -, hPushed⟩ := pushed_of_ok (push_of_completes hRest).1
  obtain ⟨hFrame, hBranches⟩ := hPushed.frame
  refine ⟨aborted, hAbort, hNew, hFrame, fun name hName => ?_⟩
  rw [hBranches, Refs.get?_set, if_neg fun hSame => hName (RefName.branch.inj hSame)]

/-- A reset stages everything, fetches, and resets to what the short name of the remote's branch stands for
by then. -/
theorem resetToRemote_steps
    (h : resetToRemote author remote branch credential w = (.completed report, w')) :
    ∃ fetched, ∃ target : Commit,
      Checkout.fetch w.reach remote { w.checkout with index := w.checkout.stagedAll } = (.ok (), fetched) ∧
      fetched.resolve? (remote ++ "/" ++ branch) = some target ∧
      Checkout.resetTo "reset" fetched target = (.ok (), w'.checkout) := by
  obtain ⟨-, hRest⟩ := addAll_of_completes (Backend.completes_of_execute h)
  have hFetches (w : Workspace) :
      w.performPlain (.fetch remote) = w.locally (Checkout.fetch w.reach remote) := rfl
  obtain ⟨fetched, hFetch, hRest⟩ := locally_of_completes (hFetches _) hRest
  have hResets (w : Workspace) (target : String) :
      w.performPlain (.resetHard target) = w.locally (Checkout.resetHard target) := rfl
  obtain ⟨c, hReset, hRest⟩ := locally_of_completes (hResets _ _) hRest
  obtain rfl := hRest.eq_of_nil
  obtain ⟨target, hTarget, hReset⟩ := Checkout.resetHard_eq_ok hReset
  exact ⟨fetched, target, hFetch, hTarget, hReset⟩

/-- A reset to the remote that completes ends with a reset of what was fetched. -/
theorem resetToRemote_completed
    (h : resetToRemote author remote branch credential w = (.completed report, w')) :
    ∃ fetched, ∃ target : Commit, fetched.head = w.checkout.head ∧
      Checkout.resetTo "reset" fetched target = (.ok (), w'.checkout) := by
  obtain ⟨fetched, target, hFetch, -, hReset⟩ := resetToRemote_steps h
  exact ⟨fetched, target, by rw [(Checkout.fetches hFetch).rest], hReset⟩

/-- A pull that stops leaves the repository on no branch, with a rebase that can be given up. -/
theorem left_by_pull {c stopped : Checkout} {reach : Reach}
    (hPull : c.pull author reach remote = (.ok .stopped, stopped)) :
    ∃ current rebase, stopped.head = .detached current ∧ stopped.abortable? = some rebase := by
  obtain ⟨branch, hBranch⟩ := Checkout.currentBranch_of_pull hPull
  obtain ⟨tip, hTip⟩ := Checkout.tip_of_currentBranch hBranch
  obtain ⟨fetched, current, -, hUnderway, hIdle, -⟩ :=
    Checkout.pull_stopped (Checkout.currentBranch_eq_ok hBranch) hTip hPull
  exact ⟨current, ⟨branch, tip⟩, by rw [hUnderway.rest], hUnderway.abortable? hIdle⟩

/-- What recovering makes of a repository that is on no branch. A pull that stops, also in a sync, leaves one
with a rebase that can be given up. When breaking out is completed that rebase is given up and the
repository is on its branch. Without such a rebase it stays where it is, and the next pull or push is
refused as before. After a completed reset nothing is in progress, but the repository is never on a
branch, and pulls and pushes are refused. -/
theorem recovery_of_detached (w : Workspace) (author : Option Person) (remote : String)
    (credential : Credential) :
    (∀ operation kind cause w', (backend author).execute .silent operation credential w =
        (.failed kind (.pull .rebaseFailed) cause, w') →
      ∃ current rebase, w'.checkout.head = .detached current ∧ w'.checkout.abortable? = some rebase) ∧
    ∀ current, w.checkout.head = .detached current →
      (∀ side report w', breakOut author remote side credential w = (.completed report, w') →
        match w.checkout.abortable? with
        | some rebase => w'.checkout.isRebasing = false ∧ w'.checkout.currentBranch = .ok rebase.branch
        | none => w'.checkout.head = .detached current ∧ w'.Refuses) ∧
      ∀ branch report w', resetToRemote author remote branch credential w = (.completed report, w') →
        w'.checkout.isRebasing = false ∧ (∃ target, w'.checkout.head = .detached target) ∧ w'.Refuses := by
  refine ⟨?_, fun current hHead => ⟨?_, ?_⟩⟩
  · intro operation kind cause w' hExecute
    obtain ⟨remote, before, hPull⟩ := Backend.stopped_of_execute hExecute
    exact left_by_pull (pull_of_perform hPull).1
  · intro side report w' hBreakOut
    obtain ⟨aborted, hAbort, hNew, hFrame, hBranches⟩ := breakOut_completed hBreakOut
    rcases Checkout.abortRebase_eq_ok hAbort with ⟨hNone, rfl⟩ | ⟨rebase, moved, hRebase, hMoved, hReset⟩
    · have hStays : w'.checkout.head = .detached current := by rw [hFrame, hHead]
      rw [hNone]
      exact ⟨hStays, refuses_of_detached hStays⟩
    · obtain ⟨hIdle, hCommit, hOn, -⟩ := Checkout.resetTo_eq_ok hReset
      have hBranch := hOn rebase.branch hMoved
      have hTip : aborted.refs.get? (.branch rebase.branch) = some rebase.tip := by
        rw [Repository.headCommit?, hBranch] at hCommit
        exact hCommit
      -- the side branch is made where no branch is, so it is not the one that was rebased
      have hOther : rebase.branch ≠ side := by
        rintro rfl
        cases hNew.symm.trans hTip
      rw [hRebase]
      refine ⟨?_, Checkout.currentBranch_of_tip ?_ ((hBranches _ hOther).trans hTip)⟩
      · rw [hFrame]
        exact hIdle
      · rw [hFrame]
        exact hBranch
  · intro branch report w' hExecute
    obtain ⟨fetched, target, hFetched, hReset⟩ := resetToRemote_completed hExecute
    obtain ⟨hIdle, -, -, hDetached⟩ := Checkout.resetTo_eq_ok hReset
    have hStays := hDetached current (hFetched.trans hHead)
    exact ⟨hIdle, ⟨target, hStays⟩, refuses_of_detached hStays⟩

open Checkout (standingAt reachAt writer writes)

/-- The remote and the checkout have written the same new file, so that a pull has stopped. -/
theorem recovery_of_detached_conflict :
    let tip := writes "b" "2" (some (writes "a" "1" none))
    let base := writes "b" "3" (some (writes "a" "1" none))
    let w : Workspace := ⟨((standingAt tip).pull (some writer) (reachAt base) "origin").2, reachAt base⟩
    let brokenOut := breakOut (some writer) "origin" "side" (.password "" "") w
    let reset := resetToRemote (some writer) "origin" "master" (.password "" "") w
    w.checkout.head = .detached base ∧ w.checkout.abortable? = some ⟨"master", tip⟩ ∧
      brokenOut.1.isSuccess = true ∧ brokenOut.2.checkout.currentBranch = .ok "master" ∧
      reset.1.isSuccess = true ∧ reset.2.Refuses := by
  intro tip base w brokenOut reset
  have hHead : w.checkout.head = .detached base := by decide +kernel
  have hRebase : w.checkout.abortable? = some ⟨"master", tip⟩ := by decide +kernel
  have hBrokenOut : brokenOut.1.isSuccess = true := by decide +kernel
  have hReset : reset.1.isSuccess = true := by decide +kernel
  obtain ⟨report, hReport⟩ := SyncOutcome.exists_report hBrokenOut
  obtain ⟨report', hReport'⟩ := SyncOutcome.exists_report hReset
  obtain ⟨-, hRecovers⟩ := w.recovery_of_detached (some writer) "origin" (.password "" "")
  obtain ⟨hBreaksOut, hResets⟩ := hRecovers base hHead
  have hBranch := hBreaksOut "side" report brokenOut.2 hReport
  rw [hRebase] at hBranch
  exact ⟨hHead, hRebase, hBrokenOut, hBranch.2, hReset, (hResets "master" report' reset.2 hReport').2.2⟩

/-- Breaking out of a head that is on no branch, and a reset where a pull has stopped, are completed and leave
the repository on no branch. -/
theorem recovery_without_branch :
    let tip := writes "b" "2" (some (writes "a" "1" none))
    let base := writes "b" "3" (some (writes "a" "1" none))
    let detached : Workspace := ⟨{ standingAt tip with head := .detached tip }, reachAt tip⟩
    let stopped : Workspace := ⟨((standingAt tip).pull (some writer) (reachAt base) "origin").2, reachAt base⟩
    let brokenOut := breakOut (some writer) "origin" "side" (.password "" "") detached
    let reset := resetToRemote (some writer) "origin" "master" (.password "" "") stopped
    brokenOut.1.isSuccess = true ∧ brokenOut.2.checkout.head = .detached tip ∧
      brokenOut.2.checkout.currentBranch.toOption = none ∧
      ((standingAt tip).pull (some writer) (reachAt base) "origin").1.toOption = some .stopped ∧
      reset.1.isSuccess = true ∧ reset.2.checkout.head = .detached base ∧
      reset.2.checkout.currentBranch.toOption = none := by
  decide +kernel

end Workspace

end VaultSync.Git
