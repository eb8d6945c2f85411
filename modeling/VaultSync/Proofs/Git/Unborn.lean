import VaultSync.Proofs.Git.Unresolved

/-! Branches without a commit, as in a clone of a repository that had none. A pull asks for the current branch
first, and a branch without a commit is refused there. So what others publish later never arrives, by a pull
or by a sync, although a pull knows what to do for such a branch once it has fetched. -/
namespace VaultSync.Git

namespace Checkout

variable {c c' : Checkout} {branch remote : String} {reach : Reach} {base : Commit}

/-- On a branch without a commit, with no file and nothing staged. -/
structure Unborn (branch : String) (c : Checkout) : Prop where
  head : c.head = .branch branch
  absent : c.refs.get? (.branch branch) = none
  index : c.index = .ofTree .empty
  work : c.work = .empty

/-- A clone of a repository that stands at no commit. -/
theorem unborn_of_clone {origin : Repository} (h : origin.headCommit? = none) (url : String) :
    Unborn "master" (origin.clone url) := by
  have hTree : origin.headTree = .empty := by rw [Repository.headTree, h]; rfl
  have hHead : origin.cloneHead = .branch "master" := by
    rw [Repository.cloneHead, h]
  refine ⟨hHead, ?_, ?_, hTree⟩
  · simp only [Repository.clone, h, hHead]
    refine List.lookup_eq_none_iff.2 fun ref hRef => ?_
    obtain ⟨known, -, rfl⟩ := List.mem_map.1 hRef
    exact bne_iff_ne.2 RefName.noConfusion
  · rw [← hTree]
    rfl

namespace Unborn

variable (h : c.Unborn branch)

include h

theorem headCommit? : c.headCommit? = none := by
  rw [Repository.headCommit?, h.head]
  exact h.absent

theorem headTree : c.headTree = .empty := by
  rw [Repository.headTree, h.headCommit?]
  rfl

/-- An unborn branch is no current branch, since `HEAD` does not resolve. -/
theorem currentBranch : c.currentBranch = .error (failed "resolve HEAD") := by
  rw [Checkout.currentBranch, h.head]
  simp [h.headCommit?]

/-- A pull does not even fetch. -/
theorem pull (committer : Option Person) (reach : Reach) (remote : String) :
    c.pull committer reach remote = (.error (failed "resolve HEAD"), c) := by
  rw [Checkout.pull, h.currentBranch]

/-- A fetch leaves an unborn branch unborn. -/
theorem of_fetches (hFetches : Fetches reach remote c c') : c'.Unborn branch where
  head := by rw [hFetches.rest, h.head]
  absent := (hFetches.branch branch).trans h.absent
  index := by rw [hFetches.rest, h.index]
  work := by rw [hFetches.rest, h.work]

/-- The status of an unborn and empty checkout counts nothing. -/
theorem status : c.status = .ok ⟨0, 0, 0⟩ := by
  have hPaths : c.paths = [] := by
    rw [paths, h.headTree, h.index, h.work]
    rfl
  have hCount (standing : Standing) : c.count standing = 0 := by rw [count, hPaths]; rfl
  rw [Checkout.status, if_neg (by rw [h.head]; exact Head.noConfusion)]
  simp only [hCount]

/-- There is nothing to stage. -/
theorem addAll : c.addAll.2 = c := by
  have hStaged : c.stagedAll = c.index := by
    rw [stagedAll, h.index, h.work]
    rfl
  rcases c.addAll_cases with ⟨-, hAdd⟩ | ⟨-, hAdd⟩
  · rw [hAdd, hStaged]
  · rw [hAdd]

/-- With a commit of the remote known the branch would be brought there, with the files. -/
theorem adopt (hFree : ∀ path, c.isLocked path = false) (hClear : c.refs.clashes (.branch branch) = false)
    (hBase : base.tree.Coherent) :
    c.adopt branch base = (.ok .fastForward, { c with
      refs := c.refs.set (.branch branch) base, index := .ofTree base.tree, work := base.tree }) := by
  have hSwitch : c.switch c.headTree base.tree = .done { c with work := base.tree, index := .ofTree base.tree } := by
    rw [h.headTree]
    exact switch_of_clean h.work h.index (hFree _) hBase
  have hPoint : ({ c with work := base.tree, index := .ofTree base.tree } : Checkout).within
      (·.point (.branch branch) base) = some { c with
        refs := c.refs.set (.branch branch) base, index := .ofTree base.tree, work := base.tree } :=
    within_eq_some_iff.2 ⟨_, Repository.point_eq_some_iff.2 ⟨hFree _, hClear, rfl⟩, rfl⟩
  have hMove : ({ c with refs := c.refs.set (.branch branch) base, index := .ofTree base.tree, work := base.tree } :
      Checkout).within (·.moveTo (.branch branch)) = some { c with
        refs := c.refs.set (.branch branch) base, index := .ofTree base.tree, work := base.tree } :=
    within_eq_some_iff.2 ⟨_, Repository.moveTo_eq_some_iff.2 ⟨hFree _, rfl⟩, by rw [← h.head]⟩
  simp only [Checkout.adopt, h.status, StatusReport.pending, fastForward, hSwitch, hPoint, hMove]
  rfl

end Unborn

end Checkout

namespace Workspace

variable {w : Workspace} {branch : String}

/-- Where a branch has no commit and there are no files, a pull and a sync fail and leave everything as it was,
whatever the remote has. After a fetch the way that a pull has for such a branch would bring the commit that
is known of the remote: the branch would be there, with the index and the files. It is never taken. -/
theorem unborn_receives_nothing (h : w.checkout.Unborn branch) (author : Option Person)
    (remote message : String) (credential : Credential) :
    let refused := failed "resolve HEAD"
    (∀ committer reach, w.checkout.pull committer reach remote = (.error refused, w.checkout)) ∧
      (∃ cause, (backend author).execute .silent (.pull remote) credential w =
        (.failed .pull (.command "pull" refused) cause, w)) ∧
      (∃ cause, (backend author).execute .silent (.sync remote message) credential w =
        (.failed .sync (.command "push" refused) cause, w)) ∧
      ∀ fetched base, w.checkout.fetch w.reach remote = (.ok (), fetched) →
        fetched.refs.get? (.tracking remote branch) = some base → base.tree.Coherent →
        (∀ path, w.checkout.isLocked path = false) → w.checkout.refs.clashes (.branch branch) = false →
        ∃ adopted, fetched.adopt branch base = (.ok .fastForward, adopted) ∧ adopted.head = .branch branch ∧
          adopted.refs.get? (.branch branch) = some base ∧ adopted.index = .ofTree base.tree ∧
          adopted.work = base.tree := by
  intro refused
  have hPull : w.checkout.pull author w.reach remote = (.error refused, w.checkout) := h.pull author w.reach remote
  have hPush : w.push remote none false = (.error refused, w) := by
    rw [push, Option.map_none, Option.getD_none, h.currentBranch]
  refine ⟨fun committer reach => h.pull committer reach remote, ?_, ?_, ?_⟩
  · have hPulls : (backend author).perform (.pull remote) credential w = (.error refused, w) :=
      backend_perform_error (perform_pull hPull) credential
    exact ⟨_, Backend.execute_of_failure .silent (Backend.steps_of_perform rfl rfl hPulls) rfl rfl⟩
  · have hReport : w.checkout.addAll.2.status = .ok ⟨0, 0, 0⟩ := by
      rw [h.addAll]
      exact h.status
    obtain ⟨progress, hHalted, hSteps⟩ := w.steps_of_recording author message credential hReport
      [.pull remote, .push remote none false]
    have hNothing : StatusReport.pending ⟨0, 0, 0⟩ = 0 := rfl
    rw [if_pos hNothing, h.addAll] at hSteps
    obtain ⟨last, hLast, hFailure⟩ := steps_of_refused hPull hPush hHalted
    exact ⟨_, Backend.execute_of_failure .silent (hSteps.trans hLast) hFailure rfl⟩
  -- what follows is the branch of the code that is never taken
  · intro fetched base hFetch hBase hCoherent hFree hClear
    have hFetches := Checkout.fetches hFetch
    have hUnborn := h.of_fetches hFetches
    refine ⟨_, hUnborn.adopt (fun path => (hFetches.isLocked path).trans (hFree path))
      (hFetches.clashes hClear) hCoherent, hUnborn.head, ?_, rfl, rfl⟩
    rw [Refs.get?_set, if_pos rfl]

open Checkout (unborn_of_clone reachAt writer writes)

/-- A clone of an empty repository, to which another client has published a file since. -/
theorem unborn_receives_nothing_of_clone :
    let theirs := writes "a" "1" none
    let empty := (Repository.init true).clone "o"
    let w : Workspace := ⟨empty, reachAt theirs⟩
    (empty.pull (some writer) (reachAt theirs) "origin").2 = empty ∧
      ((backend (some writer)).execute .silent (.pull "origin") (.password "" "") w).2 = w ∧
      ((backend (some writer)).execute .silent (.sync "origin" "m") (.password "" "") w).2 = w ∧
      ∃ adopted, (empty.fetch (reachAt theirs) "origin").2.adopt "master" theirs = (.ok .fastForward, adopted) ∧
        adopted.work = theirs.tree := by
  intro theirs empty w
  obtain ⟨hPull, ⟨cause, hPulled⟩, ⟨cause', hSynced⟩, hAdopt⟩ := unborn_receives_nothing (w := w)
    (unborn_of_clone rfl "o") (some writer) "origin" "m" (.password "" "")
  have hFetch : empty.fetch (reachAt theirs) "origin" = (.ok (), (empty.fetch (reachAt theirs) "origin").2) :=
    Prod.ext (Checkout.eq_ok_of_toOption (by decide +kernel)) rfl
  obtain ⟨adopted, hAdopted, -, -, -, hWork⟩ := hAdopt _ theirs hFetch (by decide +kernel)
    (by decide +kernel) (Repository.isLocked_eq_false rfl) (by decide +kernel)
  exact ⟨congrArg Prod.snd (hPull _ _), congrArg Prod.snd hPulled, congrArg Prod.snd hSynced, adopted,
    hAdopted, hWork⟩

/-- Another client has published a file to the repository since it was cloned empty: the pull fails, and
nothing has arrived. -/
theorem pull_fails_unborn :
    let theirs := writes "a" "1" none
    let empty := (Repository.init true).clone "o"
    let pulled := empty.pull (some writer) (reachAt theirs) "origin"
    empty.head = .branch "master" ∧ empty.work = .empty ∧ empty.index = .ofTree .empty ∧
      pulled.1.toOption = none ∧ pulled.2.refs.get? (.branch "master") = none ∧ pulled.2.work = .empty := by
  decide +kernel

end Workspace

end VaultSync.Git
