import VaultSync.Proofs.Git.Detached

/-! What a reset to the remote has done that is not completed. Its steps are plain commands, so each is
performed whatever became of those before it: also after a fetch that failed the last one throws away what
differs from the commit that was known of the remote's branch, if there is one. -/
namespace VaultSync

namespace Backend

variable {σ : Type} {progress : Progress}

/-- Nothing keeps a plain command from being performed, but for a rebase that stopped. -/
theorem steps_of_plain (backend : Backend σ) (credential : Credential) (command : PlainCommand)
    (rest : List Command) (state : σ) (hHalted : progress.halted = false) :
    let performed := backend.perform (.plain command) credential state
    ∃ next : Progress, next.halted = false ∧ (performed.1 ≠ .ok () ∨ next.failure = progress.failure) ∧
      backend.steps credential (.plain command :: rest) progress state =
        backend.steps credential rest next performed.2 := by
  intro performed
  have hStops : (backend.answered credential (.plain command) state).stops = false := rfl
  refine ⟨progress.after (backend.answered credential (.plain command) state),
    Progress.halted_after hHalted hStops, ?_, steps_of_perform hHalted rfl rfl⟩
  rw [Progress.after, answered]
  cases performed.1 with
  | ok value => exact .inr rfl
  | error e => exact .inl (by simp)
  | crashed message => exact .inl (by simp)

end Backend

theorem Progress.isSuccess_outcome {progress : Progress} {kind : OperationKind}
    (h : progress.failure = none) : (progress.outcome kind).isSuccess = true := by
  rw [outcome, h]
  rfl

namespace Git

namespace Checkout

variable {c c' : Checkout} {commit : Commit} {head step : String} {result : Except TransportError Unit}

/-- A hard reset on a branch switches the files, and lets the branch stand at the commit exactly if it
succeeds. -/
theorem resetTo_on_branch (hHead : c.head = .branch head) (h : c.resetTo step commit = (result, c')) :
    c'.head = .branch head ∧ c'.work = c.forced c.headTree commit.tree ∧
      (result = .ok () ∧ c'.refs.get? (.branch head) = some commit ∨
        (∃ e, result = .error e) ∧ c'.refs = c.refs) := by
  rw [resetTo] at h
  dsimp only at h
  split at h
  · obtain ⟨rfl, rfl⟩ := Prod.mk.inj h
    exact ⟨hHead, rfl, .inr ⟨⟨_, rfl⟩, rfl⟩⟩
  · rename_i written hWrite
    obtain ⟨repo, hRepo, rfl⟩ := within_eq_some_iff.1 hWrite
    obtain ⟨-, rfl⟩ := Repository.writeIndex_eq_some_iff.1 hRepo
    split at h
    · obtain ⟨rfl, rfl⟩ := Prod.mk.inj h
      exact ⟨hHead, rfl, .inr ⟨⟨_, rfl⟩, rfl⟩⟩
    · rename_i advanced hAdvance
      obtain ⟨rfl, rfl⟩ := Prod.mk.inj h
      obtain ⟨repo, hRepo, rfl⟩ := within_eq_some_iff.1 hAdvance
      rw [Repository.advance] at hRepo
      simp only [hHead] at hRepo
      obtain ⟨-, -, rfl⟩ := Repository.point_eq_some_iff.1 hRepo
      exact ⟨rfl, rfl, .inl ⟨rfl, (Refs.get?_set ..).trans (if_pos rfl)⟩⟩

end Checkout

namespace Workspace

variable {w w' : Workspace} {author : Option Person} {backend : Backend Workspace} {head : String}
  {outcome : SyncOutcome}

/-- Staging that was broken off: at most the index differs. -/
def StagingBroken (w w' : Workspace) : Prop :=
  w'.checkout = { w.checkout with index := w'.checkout.index }

/-- What a fetch may do, however it ends: only what is known about remotes differs, and what can be reached. -/
structure Informed (w w' : Workspace) : Prop where
  rest : w'.checkout = { w.checkout with refs := w'.checkout.refs }
  branch : ∀ name, w'.checkout.refs.get? (.branch name) = w.checkout.refs.get? (.branch name)

/-- A hard reset that was broken off: the branches stay, and each file is as before or switched already. -/
structure ResetBroken (target : String) (w w' : Workspace) : Prop where
  head : w'.checkout.head = w.checkout.head
  branch : ∀ name, w'.checkout.refs.get? (.branch name) = w.checkout.refs.get? (.branch name)
  file : ∀ path, w'.checkout.work.get? path = w.checkout.work.get? path ∨
    ∃ commit, w.checkout.resolve? target = some commit ∧
      w'.checkout.work.get? path = (w.checkout.forced w.checkout.headTree commit.tree).get? path

/-- A command is performed as in a workspace, or it goes wrong and leaves something broken off. -/
def PerformsOr (author : Option Person) (backend : Backend Workspace) (command : PlainCommand)
    (Broken : Workspace → Workspace → Prop) : Prop :=
  ∀ credential w,
    let performed := backend.perform (.plain command) credential w
    performed = (Workspace.backend author).perform (.plain command) credential w ∨
      performed.1 ≠ .ok () ∧ Broken w performed.2

/-- Staging changes at most the index, also when it is broken off. -/
theorem checkout_of_staging (h : PerformsOr author backend .addAll StagingBroken) (credential : Credential)
    (w : Workspace) :
    let c := (backend.perform (.plain .addAll) credential w).2.checkout
    c = { w.checkout with index := c.index } := by
  rcases h credential w with hPerformed | ⟨-, hBroken⟩
  · have hAdd : (backend.perform (.plain .addAll) credential w).2.checkout = w.checkout.addAll.2 :=
      congrArg (·.2.checkout) hPerformed
    rw [hAdd]
    rcases w.checkout.addAll_cases with ⟨-, hStaged⟩ | ⟨-, hStaged⟩ <;> rw [hStaged]
  · exact hBroken

/-- A backend of workspaces in which each command of a reset may go wrong at any time. A fetch may answer
anything and know anything of the remote afterwards. -/
structure MayFail (author : Option Person) (backend : Backend Workspace) : Prop where
  staging : PerformsOr author backend .addAll StagingBroken
  fetching : ∀ remote credential w, Informed w (backend.perform (.plain (.fetch remote)) credential w).2
  resetting : ∀ target, PerformsOr author backend (.resetHard target) (ResetBroken target)

/-- What a workspace does of its own is among what may go wrong: an unreachable remote, a lock. -/
theorem mayFail_backend (author : Option Person) : MayFail author (Workspace.backend author) where
  staging := fun _ _ => .inl rfl
  fetching := fun _ _ _ =>
    have hFetches := Checkout.fetches rfl
    ⟨hFetches.rest, hFetches.branch⟩
  resetting := fun _ _ _ => .inl rfl

namespace MayFail

variable (hBackend : MayFail author backend)

include hBackend

/-- Before the last step the repository stands where it did, with its branches and its files. -/
theorem reached (remote : String) (credential : Credential) (w : Workspace) :
    let added := backend.perform (.plain .addAll) credential w
    let c := (backend.perform (.plain (.fetch remote)) credential added.2).2.checkout
    c.head = w.checkout.head ∧ c.work = w.checkout.work ∧
      ∀ name, c.refs.get? (.branch name) = w.checkout.refs.get? (.branch name) := by
  intro added c
  have hFetched : c = { added.2.checkout with refs := c.refs } :=
    (hBackend.fetching remote credential added.2).rest
  have hBranch : ∀ name, c.refs.get? (.branch name) = added.2.checkout.refs.get? (.branch name) :=
    (hBackend.fetching remote credential added.2).branch
  have hAdded : added.2.checkout = { w.checkout with index := added.2.checkout.index } :=
    checkout_of_staging hBackend.staging credential w
  refine ⟨?_, ?_, fun name => (hBranch name).trans ?_⟩
  · rw [hFetched, hAdded]
  · rw [hFetched, hAdded]
  · rw [hAdded]

/-- The last step on a branch: it is broken off, or the branch is moved to the commit that its target stands
for and the files are switched. -/
theorem reset (credential : Credential) (hHead : w.checkout.head = .branch head) (target : String) :
    let reset := backend.perform (.plain (.resetHard target)) credential w
    let c := reset.2.checkout
    (reset.1 ≠ .ok () ∧ ResetBroken target w reset.2) ∨
      ∃ commit, w.checkout.resolve? target = some commit ∧ reset.1 = .ok () ∧ c.head = .branch head ∧
        c.refs.get? (.branch head) = some commit ∧
        c.work = w.checkout.forced w.checkout.headTree commit.tree := by
  intro reset c
  rcases hBackend.resetting target credential w with hPerformed | hBroken
  · have hReply : reset.1 = .ofExcept (w.checkout.resetHard target).1 := congrArg Prod.fst hPerformed
    have hCheckout : c = (w.checkout.resetHard target).2 := congrArg (·.2.checkout) hPerformed
    cases hResolve : w.checkout.resolve? target with
    | none =>
        simp only [Checkout.resetHard, hResolve] at hReply hCheckout
        have hSame : reset.2.checkout = w.checkout := hCheckout
        refine .inl ⟨by simp [hReply, Reply.ofExcept], ?_, fun _ => ?_, fun _ => .inl ?_⟩ <;> rw [hSame]
    | some commit =>
        simp only [Checkout.resetHard, hResolve] at hReply hCheckout
        have hResult : w.checkout.resetTo "reset" commit = ((w.checkout.resetTo "reset" commit).1, c) :=
          Prod.ext rfl hCheckout.symm
        -- files are forced first, so a reset that fails later has changed them without the branch
        obtain ⟨hOn, hWork, ⟨hDone, hMoved⟩ | ⟨⟨e, hError⟩, hRefs⟩⟩ := Checkout.resetTo_on_branch hHead hResult
        · exact .inr ⟨commit, rfl, hReply.trans (congrArg Reply.ofExcept hDone), hOn, hMoved, hWork⟩
        · have hFails : reset.1 = .error e := hReply.trans (congrArg Reply.ofExcept hError)
          refine .inl ⟨by simp [hFails], hOn.trans hHead.symm, fun name => ?_, fun path => ?_⟩
          · exact congrArg (fun refs : Refs => refs.get? (.branch name)) hRefs
          · exact .inr ⟨commit, hResolve, congrArg (·.get? path) hWork⟩
  · exact .inl hBroken

end MayFail

/-- What a reset to the remote leaves of a repository on a branch when it is not completed, whichever of its
steps went wrong and how. If the short name of the remote's branch stands for no commit by the last step,
nothing is destroyed: the branch and the files are as before. If it stands for one, known before or fetched,
the last step is not held back. When that succeeds an earlier step has failed, but the branch is moved to
the commit and the files are switched to it by force. When it fails the branch stays, and each file is as
before or switched already. -/
theorem resetToRemote_failed (hBackend : MayFail author backend) (remote branch : String)
    (credential : Credential) (hHead : w.checkout.head = .branch head)
    (h : backend.execute .silent (Operation.resetToRemote remote branch) credential w = (outcome, w'))
    (hFailed : outcome.isSuccess = false) :
    let added := backend.perform (.plain .addAll) credential w
    let fetched := backend.perform (.plain (.fetch remote)) credential added.2
    let reset := backend.perform (.plain (.resetHard (remote ++ "/" ++ branch))) credential fetched.2
    let reached := fetched.2.checkout
    let tip := fun c : Checkout => c.refs.get? (.branch head)
    let target := reached.resolve? (remote ++ "/" ++ branch)
    w'.checkout.head = .branch head ∧
      (target = none → tip w'.checkout = tip w.checkout ∧ w'.checkout.work = w.checkout.work) ∧
      ∀ commit, target = some commit →
        let switched := reached.forced w.checkout.headTree commit.tree
        (reset.1 = .ok () ∧ (added.1 ≠ .ok () ∨ fetched.1 ≠ .ok ()) ∧
            tip w'.checkout = some commit ∧ w'.checkout.work = switched) ∨
          (reset.1 ≠ .ok () ∧ tip w'.checkout = tip w.checkout ∧
            ∀ path, w'.checkout.work.get? path = w.checkout.work.get? path ∨
              w'.checkout.work.get? path = switched.get? path) := by
  intro added fetched reset reached tip target
  obtain ⟨hOutcome, rfl⟩ := Prod.mk.inj ((backend.execute_silent _ credential w).symm.trans h)
  obtain ⟨first, hFirst, hAdded, hSteps⟩ := backend.steps_of_plain credential .addAll
    [.plain (.fetch remote), .plain (.resetHard (remote ++ "/" ++ branch))] w (rfl : Progress.start.halted = _)
  obtain ⟨second, hSecond, hFetched, hSteps'⟩ := backend.steps_of_plain credential (.fetch remote)
    [.plain (.resetHard (remote ++ "/" ++ branch))] added.2 hFirst
  obtain ⟨last, -, hReset, hSteps''⟩ := backend.steps_of_plain credential
    (.resetHard (remote ++ "/" ++ branch)) [] fetched.2 hSecond
  have hRun : backend.steps credential (Operation.resetToRemote remote branch).steps .start w =
      (last, reset.2) := (hSteps.trans hSteps').trans hSteps''
  rw [hRun] at hOutcome ⊢
  -- a reset that succeeds is the last of three steps, so the failure is of an earlier one
  have hEarlier (hDone : reset.1 = .ok ()) : added.1 ≠ .ok () ∨ fetched.1 ≠ .ok () := by
    by_contra hNone
    obtain ⟨hNoneAdded, hNoneFetched⟩ := not_or.1 hNone
    have hFailure : last.failure = none :=
      ((hReset.resolve_left (not_not.2 hDone)).trans (hFetched.resolve_left hNoneFetched)).trans
        (hAdded.resolve_left hNoneAdded)
    rw [← hOutcome, Progress.isSuccess_outcome hFailure] at hFailed
    cases hFailed
  obtain ⟨hOn, hWork, hTip⟩ : reached.head = w.checkout.head ∧ reached.work = w.checkout.work ∧
      ∀ name, reached.refs.get? (.branch name) = w.checkout.refs.get? (.branch name) :=
    hBackend.reached remote credential w
  rw [hHead] at hOn
  have hTree : reached.headTree = w.checkout.headTree := by
    rw [Repository.headTree, Repository.headTree, Repository.headCommit?, Repository.headCommit?, hOn, hHead]
    exact congrArg treeOf (hTip head)
  rcases hBackend.reset credential hOn (remote ++ "/" ++ branch) with
    ⟨hFails, hBroken⟩ | ⟨commit, hCommit, hDone, hStays, hMoved, hSwitched⟩
  · have hKept : tip reset.2.checkout = tip w.checkout := (hBroken.branch head).trans (hTip head)
    refine ⟨hBroken.head.trans hOn, fun hNone => ⟨hKept, Tree.ext_get? fun path => ?_⟩, fun commit hSome =>
      .inr ⟨hFails, hKept, fun path => ?_⟩⟩
    · rcases hBroken.file path with hSame | ⟨commit, hSome, -⟩
      · exact hSame.trans (congrArg (·.get? path) hWork)
      · cases hNone.symm.trans hSome
    · rcases hBroken.file path with hSame | ⟨other, hOther, hForced⟩
      · exact .inl (hSame.trans (congrArg (·.get? path) hWork))
      · obtain rfl : commit = other := Option.some.inj (hSome.symm.trans hOther)
        exact .inr (hTree ▸ hForced)
  · have hTarget : target = some commit := hCommit
    have hSome : target ≠ none := hTarget ▸ Option.some_ne_none commit
    refine ⟨hStays, fun hNone => absurd hNone hSome, fun other hOther => .inl ?_⟩
    obtain rfl : commit = other := Option.some.inj (hTarget.symm.trans hOther)
    exact ⟨hDone, hEarlier hDone, hMoved, hTree ▸ hSwitched⟩

open Checkout (standingAt writer writes)

/-- The remote cannot be reached, and there are a commit of its own and a file that is not committed. Nothing
is destroyed where nothing is known of the remote. Where it was seen before, the reset goes there. -/
theorem resetToRemote_failed_offline :
    let shared := writes "a" "1" none
    let ours := writes "b" "2" (some shared)
    let alone := { standingAt ours with work := ours.tree.put ["new"] "3".toUTF8 }
    let seen := { alone with refs := (.tracking "origin" "master", shared) :: alone.refs }
    let reset := fun c : Checkout =>
      resetToRemote (some writer) "origin" "master" (.password "" "") ⟨c, fun _ => .error .network⟩
    (reset alone).1.isSuccess = false ∧ (reset seen).1.isSuccess = false ∧
      (reset alone).2.checkout.refs.get? (.branch "master") = some ours ∧
      (reset alone).2.checkout.work = alone.work ∧
      (reset seen).2.checkout.refs.get? (.branch "master") = some shared ∧
      (reset seen).2.checkout.work = shared.tree := by
  intro shared ours alone seen reset
  have hAlone : (reset alone).1.isSuccess = false := by decide +kernel
  have hSeen : (reset seen).1.isSuccess = false := by decide +kernel
  obtain ⟨-, hSpared, -⟩ := resetToRemote_failed (w := ⟨alone, fun _ => .error .network⟩)
    (mayFail_backend (some writer)) "origin" "master" (.password "" "") rfl rfl hAlone
  obtain ⟨hTip, hWork⟩ := hSpared (by decide +kernel)
  obtain ⟨-, -, hSwitched⟩ := resetToRemote_failed (w := ⟨seen, fun _ => .error .network⟩)
    (mayFail_backend (some writer)) "origin" "master" (.password "" "") rfl rfl hSeen
  rcases hSwitched shared (by decide +kernel) with ⟨-, -, hMoved, hForced⟩ | ⟨-, hStays, -⟩
  · exact ⟨hAlone, hSeen, hTip, hWork, hMoved, hForced.trans (by decide +kernel)⟩
  · exact absurd hStays (by decide +kernel)

/-- A reset that fails, since the remote cannot be reached, moves the branch to what was known of the remote
and takes away a file that was never committed. -/
theorem resetToRemote_failed_destroys :
    let shared := writes "a" "1" none
    let ours := writes "b" "2" (some shared)
    let c := { standingAt ours with
      refs := [(.branch "master", ours), (.tracking "origin" "master", shared)]
      work := ours.tree.put ["new"] "3".toUTF8 }
    let reset := resetToRemote (some writer) "origin" "master" (.password "" "") ⟨c, fun _ => .error .network⟩
    reset.1.isSuccess = false ∧ c.head = .branch "master" ∧
      reset.2.checkout.refs.get? (.branch "master") ≠ c.refs.get? (.branch "master") ∧
      c.work.get? ["new"] ≠ none ∧ reset.2.checkout.work.get? ["new"] = none := by
  decide +kernel

end Workspace

end Git

end VaultSync
