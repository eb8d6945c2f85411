import VaultSync.Proofs.Git.Outcome
import VaultSync.Proofs.Git.Sync

/-! Getting out of a rebase that a pull has left behind. Giving it up leads back to the branch, its commit
and its files, and the commit is then published on a branch of its own. -/
namespace VaultSync.Git

namespace Repository

variable {repo : Repository} {name other : RefName} {commit : Commit} {path : TreePath}

/-- A name that a new reference can have: none has it or is in its way, and it can be written. -/
structure Admits (name : RefName) (repo : Repository) : Prop where
  absent : repo.refs.get? name = none
  clear : repo.refs.clashes name = false
  free : repo.isLocked name.path = false

namespace Admits

theorem point (h : repo.Admits name) (commit : Commit) :
    repo.point name commit = some { repo with refs := repo.refs.set name commit } :=
  point_eq_some h.free h.clear commit

theorem with_refs {repo' : Repository} (h : repo.Admits name)
    (hRefs : repo'.refs = repo.refs.set other commit) (hFree : repo'.isLocked name.path = false)
    (hNe : name ≠ other) (hApart : other.Apart name) :
    repo'.Admits name where
  absent := by rw [hRefs, Refs.get?_set, if_neg hNe, h.absent]
  clear := hRefs ▸ Refs.clashes_set h.clear hApart
  free := hFree

end Admits

/-- Afterwards no rebase is in progress, also none that others left. -/
theorem isRebasing_clearProgress (repo : Repository) : repo.clearProgress.isRebasing = false := by
  have hNone (dir : String) (hDir : dir ∈ rebaseDirs) : repo.clearProgress.strays.hasBelow [dir] = false := by
    refine Bool.eq_false_iff.2 fun hBelow => ?_
    obtain ⟨path, hSome, hBelow⟩ := Tree.hasBelow_iff.1 hBelow
    obtain ⟨rest, rfl⟩ := (TreePath.isBelow_iff.1 hBelow).1
    rw [clearProgress, Tree.get?_tabulate] at hSome
    simp [hDir] at hSome
  rw [isRebasing, hasStrayRebase, Bool.or_eq_false_iff, List.any_eq_false]
  exact ⟨rfl, fun dir hDir => Bool.eq_false_iff.1 (hNone dir hDir)⟩

theorem isLocked_clearProgress (h : repo.isLocked path = false) :
    repo.clearProgress.isLocked path = false := by
  rw [isLocked, Option.isSome_eq_false_iff, Option.isNone_iff_eq_none] at h ⊢
  rw [clearProgress, Tree.get?_tabulate, h, ite_self, ite_self]

end Repository

namespace Checkout

variable {c start stopped fetched : Checkout} {committer : Option Person} {reach : Reach}
  {remote branch side url : String} {tip current : Commit} {origin : Repository}

/-! ### Going back to a commit -/

/-- A checkout on a branch, at a commit that its index has and whose files it has. Nothing is in progress. -/
structure Rests (branch : String) (tip : Commit) (c : Checkout) : Prop where
  head : c.head = .branch branch
  points : c.refs.get? (.branch branch) = some tip
  index : c.index = .ofTree tip.tree
  files : ∀ p content, tip.tree.get? p = some content → c.work.get? p = some content
  idle : c.isRebasing = false

namespace Rests

theorem headCommit? (h : Rests branch tip c) : c.headCommit? = some tip :=
  Repository.headCommit?_of_branch h.head h.points

/-- Pointing other names somewhere does not matter. -/
theorem with_refs (h : Rests branch tip c) {name : RefName} (hNe : name ≠ .branch branch) (commit : Commit) :
    Rests branch tip { c with refs := c.refs.set name commit } :=
  { h with points := by rw [Refs.get?_set, if_neg hNe.symm, h.points] }

/-- A checkout that rests on a branch has no pending change. -/
theorem status (h : Rests branch tip c) : ∃ report, c.status = .ok report ∧ report.pending = 0 := by
  have hHeadTree : c.headTree = tip.tree := Repository.headTree_of_headCommit? h.headCommit?
  have hStaged : c.index.staged = tip.tree := by rw [h.index, Index.ofTree]
  have hConflicts : c.index.conflicts = [] := by rw [h.index, Index.ofTree]
  have hSeen (path : TreePath) : c.standing path ≠ .changed ∧ c.standing path ≠ .missing := by
    rw [standing, hConflicts, hHeadTree, hStaged]
    cases hTree : tip.tree.get? path with
    | some content => simp [h.files path content hTree]
    | none =>
        cases c.work.get? path with
        | none => simp
        | some content => by_cases hIgnored : Ignore.isIgnored c path = true <;> simp [hIgnored]
  have hChanged : c.count .changed = 0 := count_eq_zero_iff.2 fun path _ => (hSeen path).1
  have hMissing : c.count .missing = 0 := count_eq_zero_iff.2 fun path _ => (hSeen path).2
  refine ⟨_, by rw [Checkout.status, h.head, if_neg Head.noConfusion], ?_⟩
  simp [StatusReport.pending, hChanged, hMissing]

end Rests

/-- A checkout was led to a branch at a commit. It keeps its other references, its remotes, and what can be
written. -/
structure Returns (start : Checkout) (branch : String) (tip : Commit) (c : Checkout) : Prop
    extends Rests branch tip c where
  refs : c.refs = start.refs.set (.branch branch) tip
  remotes : c.remotes = start.remotes
  free : ∀ path, start.isLocked path = false → c.isLocked path = false

/-- A forced switch leaves every path of the target with its content. -/
theorem get?_forced {source target : Tree} {p : TreePath} {content : ByteArray}
    (h : target.get? p = some content) : (c.forced source target).get? p = some content := by
  have hMem : p ∈ Tree.unionPaths [source, target, c.work] :=
    Tree.mem_unionPaths.2 ⟨target, by simp, by simp [h]⟩
  rw [forced, Tree.get?_tabulate, if_pos hMem, afterForce, h]

/-- Throwing away what differs from a commit leads a checkout on a branch there, with the branch. -/
theorem resetTo_returns (step : String) (tip : Commit) (hHead : c.head = .branch branch)
    (hIndex : c.isLocked ["index"] = false) (hFree : c.isLocked (RefName.branch branch).path = false)
    (hClear : c.refs.clashes (.branch branch) = false) :
    ∃ c', c.resetTo step tip = (.ok (), c') ∧ Returns c branch tip c' := by
  let forced : Checkout :=
    { c with
      work := c.forced c.headTree tip.tree, index := .ofTree tip.tree
      refs := c.refs.set (.branch branch) tip }
  have hReset : c.resetTo step tip = (.ok (), { forced with toRepository := forced.clearProgress }) := by
    rw [Repository.isLocked] at hIndex hFree
    simp [resetTo, within, Repository.writeIndex, Repository.isLocked, hIndex, Repository.advance, hHead,
      Repository.point, hFree, hClear, forced]
  exact ⟨_, hReset,
    { head := hHead
      points := (Refs.get?_set ..).trans (if_pos rfl)
      index := rfl
      files := fun p content => get?_forced
      idle := Repository.isRebasing_clearProgress forced.toRepository
      refs := rfl
      remotes := rfl
      free := fun path => @Repository.isLocked_clearProgress forced.toRepository path }⟩

/-! ### After a pull that stopped -/

/-- A pull that stops leaves a rebase of the branch underway. Nothing was in progress before, and the files
were those of the branch. -/
theorem pull_stopped (hHead : c.head = .branch branch) (hTip : c.refs.get? (.branch branch) = some tip)
    (hPull : c.pull committer reach remote = (.ok .stopped, stopped)) :
    ∃ fetched current, Fetches reach remote c fetched ∧ Underway fetched branch tip current stopped ∧
      fetched.isRebasing = false ∧ fetched.isLocked ["HEAD"] = false ∧ fetched.isLocked ["index"] = false ∧
      ∀ p, c.index.staged.get? p = tip.tree.get? p ∧
        ∀ content, tip.tree.get? p = some content → c.work.get? p = some content := by
  have hHeadTree : c.headTree = tip.tree :=
    Repository.headTree_of_headCommit? (Repository.headCommit?_of_branch hHead hTip)
  obtain ⟨fetched, hFetch, hPulled⟩ := pulled_of_ok hHead hTip hPull
  have hFetched := fetches hFetch
  cases hPulled with
  | @stopped base current report started _ hReport hNothing hStarts hUnderway =>
      obtain ⟨hIdle, hHeadFree, hIndexFree⟩ := hStarts.idle
      have hConflicts := hStarts.settled
      refine ⟨fetched, current, hFetched, hUnderway, hIdle, hHeadFree, hIndexFree, fun p => ?_⟩
      rw [hFetched.status] at hReport
      rw [hFetched.rest] at hConflicts
      rw [← hHeadTree]
      exact staged_of_pending hReport hNothing (hConflicts ▸ List.not_mem_nil)

/-- The rebase that can be given up. One that others have left in another place comes first, and keeps it
from that. -/
def abortable? (c : Checkout) : Option StoppedRebase :=
  if c.strays.hasBelow ["rebase-apply"] then none else c.rebase

/-- An abort returns to the branch of the rebase and resets to its old tip. -/
theorem abortRebase_of_abortable {rebase : StoppedRebase} (h : c.abortable? = some rebase) :
    c.abortRebase = match c.within (·.moveTo (.branch rebase.branch)) with
      | none => (.error (failed "abort rebase"), c)
      | some moved => moved.resetTo "abort rebase" rebase.tip := by
  obtain ⟨hNoMails, hRebase⟩ := Option.ite_none_left_eq_some.1 h
  cases hMove : c.within (·.moveTo (.branch rebase.branch)) with
  | none => simp only [abortRebase, if_neg hNoMails, hRebase, hMove]
  | some moved => simp only [abortRebase, if_neg hNoMails, hRebase, hMove]

/-- What a pull leaves behind can be given up. -/
theorem Underway.abortable? (h : Underway start branch tip current c) (hIdle : start.isRebasing = false) :
    c.abortable? = some ⟨branch, tip⟩ := by
  -- the directory of another kind of rebase would come first, but nothing was in progress
  have hNoMails : start.strays.hasBelow ["rebase-apply"] = false := by
    rw [Repository.isRebasing, Bool.or_eq_false_iff, Repository.hasStrayRebase, List.any_eq_false] at hIdle
    exact Bool.eq_false_iff.2 (hIdle.2 "rebase-apply" (by decide))
  rw [Checkout.abortable?, h.rest, hNoMails]
  rfl

/-- Giving up a rebase leads back to its branch. -/
theorem abortRebase_of_underway (h : Underway start branch tip current c) (hIdle : start.isRebasing = false)
    (hHead : start.isLocked ["HEAD"] = false) (hIndex : start.isLocked ["index"] = false)
    (hFree : start.isLocked (RefName.branch branch).path = false)
    (hClear : start.refs.clashes (.branch branch) = false) :
    ∃ c', c.abortRebase = (.ok (), c') ∧ Returns start branch tip c' := by
  have hStrays : c.strays = start.strays := by rw [h.rest]
  have hRefs : c.refs = start.refs := by rw [h.rest]
  have hRemotes : c.remotes = start.remotes := by rw [h.rest]
  have hLocked (path : TreePath) : c.isLocked path = start.isLocked path := by
    rw [Repository.isLocked, Repository.isLocked, hStrays]
  have hMove : c.within (·.moveTo (.branch branch)) = some { c with head := .branch branch } :=
    within_eq_some_iff.2 ⟨_, Repository.moveTo_eq_some_iff.2 ⟨(hLocked _).trans hHead, rfl⟩, rfl⟩
  obtain ⟨c', hReset, hReturns⟩ :=
    @resetTo_returns { c with head := .branch branch } branch "abort rebase" tip rfl
      ((hLocked _).trans hIndex) ((hLocked _).trans hFree) (hRefs ▸ hClear)
  have hAbort : c.abortRebase = (.ok (), c') := by
    rw [abortRebase_of_abortable (h.abortable? hIdle), hMove]
    exact hReset
  exact ⟨c', hAbort,
    { hReturns with
      refs := hReturns.refs.trans (congrArg (·.set (.branch branch) tip) hRefs)
      remotes := hReturns.remotes.trans hRemotes
      free := fun path hPath => hReturns.free path ((hLocked path).trans hPath) }⟩

/-- From a checkout at rest a free branch can be made at its tip. -/
theorem createBranch_of_rests (h : Rests branch tip c) (hName : RefName.isBranchName side = true)
    (hSide : c.Admits (.branch side)) :
    c.createBranch side = (.ok (), { c with refs := c.refs.set (.branch side) tip }) := by
  simp [createBranch, h.headCommit?, hName, hSide.absent, within, hSide.point]

/-! ### Names after a fetch -/

namespace Fetches

/-- A fetch brings nothing that is in the way of a new branch. -/
theorem admits_branch (h : Fetches reach remote c fetched) (hSide : c.Admits (.branch side)) :
    fetched.Admits (.branch side) where
  absent := (h.branch side).trans hSide.absent
  clear := h.clashes hSide.clear
  free := (h.isLocked _).trans hSide.free

/-- What is known about a remote has a place for each branch that the remote has a place for. -/
theorem admits_tracking (h : Fetches reach remote c fetched) (hUrl : c.remotes.lookup remote = some url)
    (hOrigin : reach url = .ok origin) (hRemote : origin.Admits (.branch side))
    (hKnown : c.Admits (.tracking remote side)) : fetched.Admits (.tracking remote side) := by
  have hSources (ref : RefName × Commit) (hRef : ref ∈ fetched.refs) : ref ∈ c.refs ∨
      ∃ name, ref.1 = .tracking remote name ∧ (.branch name, ref.2) ∈ origin.refs := by
    refine (h.sources ref hRef).imp_right ?_
    rintro ⟨url', origin', name, hUrl', hOrigin', hName, hMem⟩
    obtain rfl := Option.some.inj (hUrl.symm.trans hUrl')
    obtain rfl := Except.ok.inj (hOrigin.symm.trans hOrigin')
    exact ⟨name, hName, hMem⟩
  have hAbsent := Refs.get?_eq_none_iff.1 hRemote.absent
  have hClear := Refs.clashes_eq_false_iff.1 hRemote.clear
  -- a reference that the fetch brought stands for a branch of the remote, which admits the side branch
  refine ⟨Refs.get?_eq_none_iff.2 fun ref hRef => ?_, Refs.clashes_eq_false_iff.2 fun ref hRef => ?_,
    (h.isLocked _).trans hKnown.free⟩
  · rcases hSources ref hRef with hOld | ⟨name, hName, hMem⟩
    · exact Refs.get?_eq_none_iff.1 hKnown.absent ref hOld
    · rw [hName]
      rintro ⟨⟩
      exact hAbsent (.branch side, ref.2) hMem rfl
  · rcases hSources ref hRef with hOld | ⟨name, hName, hMem⟩
    · exact Refs.clashes_eq_false_iff.1 hKnown.clear ref hOld
    · rw [hName, RefName.apart_tracking_iff]
      exact hClear (.branch name, ref.2) hMem

end Fetches

end Checkout

namespace Workspace

open Checkout (Rests Fetches standingAt reachAt writer writes)
open Repository (originName)

variable {w : Workspace} {c stopped : Checkout} {author : Option Person} {remote branch side url : String}
  {tip : Commit} {origin : Repository}

theorem perform_rebaseAbort {result : Except TransportError Unit} (h : w.checkout.abortRebase = (result, c)) :
    w.perform author (.plain .rebaseAbort) = (result, { w with checkout := c }) := by
  simp [perform, performPlain, locally, h]

theorem perform_createBranch {result : Except TransportError Unit}
    (h : w.checkout.createBranch side = (result, c)) :
    w.perform author (.plain (.createBranch side)) = (result, { w with checkout := c }) := by
  simp [perform, performPlain, locally, h]

variable (w) in
/-- A bare repository takes a branch that it does not have. -/
theorem push_new (hSide : w.checkout.refs.get? (.branch side) = some tip)
    (hKnown : w.checkout.Admits (.tracking remote side)) (hUrl : w.checkout.remotes.lookup remote = some url)
    (hOrigin : w.reach url = .ok origin) (hBare : origin.bare = true)
    (hRemote : origin.Admits (.branch side)) :
    w.push remote (some side) false = (.ok (update side .ok none),
      { w.place url { origin with refs := origin.refs.set (.branch side) tip } with
        checkout := { w.checkout with refs := w.checkout.refs.set (.tracking remote side) tip } }) := by
  simp [push, hSide, hKnown.absent, hUrl, publish, hOrigin, hRemote.absent, hBare, hRemote.point, place,
    Checkout.within, hKnown.point]

variable (w) in
/-- A repository with a work tree takes no branch. -/
theorem push_into_checkout (hSide : w.checkout.refs.get? (.branch side) = some tip)
    (hKnown : w.checkout.Admits (.tracking remote side)) (hUrl : w.checkout.remotes.lookup remote = some url)
    (hOrigin : w.reach url = .ok origin) (hBare : origin.bare = false)
    (hRemote : origin.Admits (.branch side)) :
    w.push remote (some side) false = (.error (failed "push"), w) := by
  simp [push, hSide, hKnown.absent, hUrl, publish, hOrigin, hRemote.absent, hBare]

/-! ### Breaking out -/

/-- Gives up what a pull has left behind, and publishes the commit of the branch under another name. -/
def breakOut (author : Option Person) (remote side : String) (credential : Credential) (w : Workspace) :
    SyncOutcome × Workspace :=
  (backend author).execute .silent (Operation.breakOutOfDetached remote side) credential w

/-- The first two steps out of a rebase that is underway lead back to its branch, with a new one beside it. -/
theorem steps_of_underway {start : Checkout} {current : Commit} {reach : Reach}
    (hUnderway : Checkout.Underway start branch tip current stopped) (hIdle : start.isRebasing = false)
    (hHead : start.isLocked ["HEAD"] = false) (hIndex : start.isLocked ["index"] = false)
    (hTip : start.refs.get? (.branch branch) = some tip)
    (hFree : start.isLocked (RefName.branch branch).path = false)
    (hClear : start.refs.clashes (.branch branch) = false) (hName : RefName.isBranchName side = true)
    (hSide : start.Admits (.branch side)) (hKnown : start.Admits (.tracking remote side))
    (author : Option Person) (credential : Credential) :
    ∃ progress created, progress.Clear ∧
      (∀ rest, (backend author).steps credential
          (.plain .rebaseAbort :: .plain (.createBranch side) :: rest) .start ⟨stopped, reach⟩ =
        (backend author).steps credential rest progress ⟨created, reach⟩) ∧
      created.Rests branch tip ∧ created.refs.get? (.branch side) = some tip ∧
      created.Admits (.tracking remote side) ∧ created.remotes = start.remotes := by
  have hNe : RefName.branch side ≠ .branch branch := fun hSame => by
    rw [← hSame, hSide.absent] at hTip
    cases hTip
  have hApart : (RefName.branch branch).Apart (.branch side) :=
    Refs.clashes_eq_false_iff.1 hSide.clear (.branch branch, tip) (Refs.mem_of_get? hTip)
  obtain ⟨aborted, hAbort, hReturns⟩ :=
    Checkout.abortRebase_of_underway hUnderway hIdle hHead hIndex hFree hClear
  have hSide : aborted.Admits (.branch side) :=
    hSide.with_refs hReturns.refs (hReturns.free _ hSide.free) hNe hApart
  have hKnown : aborted.Admits (.tracking remote side) :=
    hKnown.with_refs hReturns.refs (hReturns.free _ hKnown.free) RefName.noConfusion
      (RefName.apart_branch_tracking _ _ _)
  have hCreate := Checkout.createBranch_of_rests hReturns.toRests hName hSide
  have hAborted : (Progress.start.after ⟨.plain .rebaseAbort, some credential, .ok ()⟩).Clear :=
    Progress.Clear.start.after rfl rfl
  have hCreated : ((Progress.start.after ⟨.plain .rebaseAbort, some credential, .ok ()⟩).after
      ⟨.plain (.createBranch side), some credential, .ok ()⟩).Clear := hAborted.after rfl rfl
  refine ⟨_, { aborted with refs := aborted.refs.set (.branch side) tip }, hCreated, fun rest => ?_,
    hReturns.toRests.with_refs hNe tip, (Refs.get?_set ..).trans (if_pos rfl), ?_, hReturns.remotes⟩
  · exact (Backend.steps_of_perform rfl rfl (backend_perform (perform_rebaseAbort hAbort) credential)).trans
      (Backend.steps_of_perform hAborted.halted rfl (backend_perform (perform_createBranch hCreate) credential))
  · exact hKnown.with_refs rfl hKnown.free RefName.noConfusion (RefName.apart_branch_tracking _ _ _)

section Ending

variable {created pushed : Workspace} {credential : Credential} {progress : Progress}
  (hProgress : progress.Clear)
  (hSteps : ∀ rest, (backend author).steps credential
      (.plain .rebaseAbort :: .plain (.createBranch side) :: rest) .start w =
    (backend author).steps credential rest progress created)

include hProgress hSteps

/-- Breaking out completes when the side branch is pushed and every update is taken. -/
theorem breakOut_of_push {updates : List RefUpdate}
    (hPush : created.push remote (some side) false = (.ok updates, pushed))
    (hErrors : updates.filterMap RefUpdate.pushError? = []) :
    ∃ report, breakOut author remote side credential w = (.completed report, pushed) := by
  have hPushed : (progress.after ⟨.push remote (some side) false, some credential, .ok updates⟩).Clear :=
    hProgress.after (by simp [Call.failures, hErrors]) (by simp [Call.stops, Call.rebaseStatus?])
  refine Backend.execute_of_clear .silent ?_ hPushed.failure
  exact (hSteps _).trans
    (Backend.steps_of_perform hProgress.halted rfl (backend_perform (perform_push hPush) credential))

/-- Breaking out fails with the error of a push that is refused. -/
theorem breakOut_of_refusal {error : TransportError}
    (hPush : created.push remote (some side) false = (.error error, pushed))
    (hKept : (SyncError.command (Command.push remote (some side) false).name error).isUserCancelled = false) :
    ∃ cause, breakOut author remote side credential w = (.failed .breakOutOfDetached
      (.command (Command.push remote (some side) false).name error) cause, pushed) := by
  have hFailed : (progress.after ⟨.push remote (some side) false, some credential, .error error⟩).failure =
      some (.command (Command.push remote (some side) false).name error) := rfl
  refine ⟨_, Backend.execute_of_failure .silent ?_ hFailed hKept⟩
  exact (hSteps _).trans
    (Backend.steps_of_perform hProgress.halted rfl (backend_perform_error (perform_push hPush) credential))

end Ending

/-- A pull that stops leaves the branch where it was. Breaking out afterwards leads back to the branch, its
commit and the content of every tracked file, with nothing in progress and nothing to record, for a new
branch whose names are free. With a bare remote it is completed: the remote has the commit on the new branch,
and its other branches as before. All remotes are local paths, and on this way no branch is sent into a
repository with a work tree, so there it fails at the end. -/
theorem breakOut_of_stopped (hHead : w.checkout.head = .branch branch)
    (hTip : w.checkout.refs.get? (.branch branch) = some tip)
    (hPull : w.checkout.pull author w.reach remote = (.ok .stopped, stopped)) :
    stopped.refs.get? (.branch branch) = some tip ∧ ∀ url origin side credential,
      w.checkout.remotes.lookup remote = some url → w.reach url = .ok origin →
      w.checkout.isLocked (RefName.branch branch).path = false →
      w.checkout.refs.clashes (.branch branch) = false →
      RefName.isBranchName side = true → w.checkout.Admits (.branch side) →
      w.checkout.Admits (.tracking remote side) → origin.Admits (.branch side) →
      ∃ outcome c' reach',
        breakOut author remote side credential ⟨stopped, w.reach⟩ = (outcome, ⟨c', reach'⟩) ∧
        c'.head = .branch branch ∧ c'.refs.get? (.branch branch) = some tip ∧
        (∀ p, w.checkout.index.staged.get? p ≠ none → c'.work.get? p = w.checkout.work.get? p) ∧
        c'.isRebasing = false ∧ (∃ status, c'.status = .ok status ∧ status.pending = 0) ∧
        (origin.bare = true → (∃ report, outcome = .completed report) ∧
          (∃ origin', reach' url = .ok origin' ∧ origin'.refs.get? (.branch side) = some tip ∧
            ∀ name, name ≠ side → origin'.refs.get? (.branch name) = origin.refs.get? (.branch name)) ∧
          ∀ other, other ≠ url → reach' other = w.reach other) ∧
        (origin.bare = false →
          (∃ error cause, outcome = .failed .breakOutOfDetached error cause) ∧ reach' = w.reach) := by
  obtain ⟨fetched, current, hFetched, hUnderway, hIdle, hUnlocked, hIndex, hFiles⟩ :=
    Checkout.pull_stopped hHead hTip hPull
  have hPoints : fetched.refs.get? (.branch branch) = some tip := (hFetched.branch branch).trans hTip
  refine ⟨by rw [hUnderway.rest]; exact hPoints, ?_⟩
  intro url origin side credential hUrl hOrigin hFree hClear hName hSide hKnown hRemote
  obtain ⟨progress, created, hProgress, hSteps, hCreated, hNew, hKnown, hRemotes⟩ :=
    steps_of_underway hUnderway hIdle hUnlocked hIndex hPoints ((hFetched.isLocked _).trans hFree)
      (hFetched.clashes hClear) hName (hFetched.admits_branch hSide)
      (hFetched.admits_tracking hUrl hOrigin hRemote hKnown) author credential
  -- at rest on the branch the work tree has what is tracked there, as it did before the pull
  have hWork (c' : Checkout) (hRests : c'.Rests branch tip) (p : TreePath)
      (hTracked : w.checkout.index.staged.get? p ≠ none) : c'.work.get? p = w.checkout.work.get? p := by
    obtain ⟨hStaged, hContents⟩ := hFiles p
    obtain ⟨content, hContent⟩ := Option.ne_none_iff_exists'.1 (hStaged ▸ hTracked)
    rw [hRests.files p content hContent, hContents content hContent]
  have hUrl : created.remotes.lookup remote = some url := by
    rw [hRemotes, hFetched.rest]
    exact hUrl
  -- everything so far is local; only the push asks what kind of repository the remote is
  cases hBare : origin.bare with
  | true =>
      have hPush := push_new ⟨created, w.reach⟩ hNew hKnown hUrl hOrigin hBare hRemote
      have hErrors : (update side .ok none).filterMap RefUpdate.pushError? = [] := rfl
      obtain ⟨report, hBreakOut⟩ := breakOut_of_push hProgress hSteps hPush hErrors
      have hRests : Rests branch tip { created with refs := created.refs.set (.tracking remote side) tip } :=
        hCreated.with_refs RefName.noConfusion tip
      refine ⟨_, _, _, hBreakOut, hRests.head, hRests.points, hWork _ hRests, hRests.idle, hRests.status,
        fun _ => ⟨⟨report, rfl⟩, ⟨_, if_pos rfl, ?_, fun name hNe => ?_⟩, fun other hNe => if_neg hNe⟩, ?_⟩
      · rw [Refs.get?_set, if_pos rfl]
      · rw [Refs.get?_set, if_neg fun hSame => hNe (RefName.branch.inj hSame)]
      · exact fun hWorktree => nomatch hWorktree
  | false =>
      have hPush := push_into_checkout ⟨created, w.reach⟩ hNew hKnown hUrl hOrigin hBare hRemote
      obtain ⟨cause, hBreakOut⟩ := breakOut_of_refusal hProgress hSteps hPush rfl
      exact ⟨_, _, _, hBreakOut, hCreated.head, hCreated.points, hWork _ hCreated, hCreated.idle,
        hCreated.status, fun hBare => (nomatch hBare), fun _ => ⟨⟨_, cause, rfl⟩, rfl⟩⟩

/-- The remote and the checkout have written the same new file. -/
theorem breakOut_of_stopped_conflict :
    let tip := writes "b" "2" (some (writes "a" "1" none))
    let base := writes "b" "3" (some (writes "a" "1" none))
    let pulled := (standingAt tip).pull (some writer) (reachAt base) originName
    pulled.1.toOption = some .stopped ∧ pulled.2.refs.get? (.branch "master") = some tip ∧
      ∃ report c' reach' origin', breakOut (some writer) originName "side" (.password "" "")
          ⟨pulled.2, reachAt base⟩ = (.completed report, ⟨c', reach'⟩) ∧
        c'.refs.get? (.branch "master") = some tip ∧ reach' "o" = .ok origin' ∧
        origin'.refs.get? (.branch "side") = some tip := by
  intro tip base pulled
  have hStopped : pulled.1.toOption = some .stopped := by decide +kernel
  have hPull : (standingAt tip).pull (some writer) (reachAt base) originName = (.ok .stopped, pulled.2) :=
    Prod.ext (Checkout.eq_ok_of_toOption hStopped) rfl
  obtain ⟨hKept, hRecovers⟩ := breakOut_of_stopped (w := ⟨standingAt tip, reachAt base⟩) rfl rfl hPull
  obtain ⟨outcome, c', reach', hBreakOut, -, hTip, -, -, -, hBare, -⟩ :=
    hRecovers "o" _ "side" (.password "" "") rfl rfl rfl (by decide) (by decide +kernel)
      ⟨rfl, by decide, rfl⟩ ⟨rfl, by decide, rfl⟩ ⟨rfl, by decide, rfl⟩
  obtain ⟨⟨report, rfl⟩, ⟨origin', hReach, hSide, -⟩, -⟩ := hBare rfl
  exact ⟨hStopped, hKept, report, c', reach', origin', hBreakOut, hTip, hReach, hSide⟩

/-- Nothing can be pushed into a repository with a work tree. Breaking out fails there, although the names of
the new branch are free. -/
theorem breakOut_fails_into_checkout :
    let tip := writes "b" "2" (some (writes "a" "1" none))
    let base := writes "b" "3" (some (writes "a" "1" none))
    let reach : Reach := fun _ => .ok (standingAt base).toRepository
    let pulled := (standingAt tip).pull (some writer) reach originName
    (standingAt tip).status.toOption = some ⟨0, 0, 0⟩ ∧ pulled.1.toOption = some .stopped ∧
      RefName.isBranchName "side" = true ∧ (standingAt tip).Admits (.branch "side") ∧
      (standingAt tip).Admits (.tracking originName "side") ∧ (standingAt base).Admits (.branch "side") ∧
      (breakOut (some writer) originName "side" (.password "" "") ⟨pulled.2, reach⟩).1.isSuccess = false := by
  intro tip base reach pulled
  exact ⟨by decide +kernel, by decide +kernel, by decide +kernel, ⟨rfl, by decide, rfl⟩,
    ⟨rfl, by decide, rfl⟩, ⟨rfl, by decide, rfl⟩, by decide +kernel⟩

end Workspace

end VaultSync.Git
