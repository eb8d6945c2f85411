import VaultSync.Proofs.Git.Detached
import VaultSync.Proofs.Sync.Recording

/-! A sync where a rebase has stopped. It ends failed, because nothing can be pulled or pushed on no branch. But
before that it stages all files and records them, whatever they hold at the paths in conflict. -/
namespace VaultSync.Git

namespace Checkout

variable {c stopped : Checkout} {committer : Option Person} {reach : Reach} {remote branch onto : String}
  {tip base : Commit}

/-- A rebase stops with paths in conflict. -/
theorem Rebases.conflicts (h : Rebases committer branch onto tip base c (.ok .stopped, stopped)) :
    stopped.index.conflicts ≠ [] := by
  generalize hResult : (Except.ok RebaseStatus.stopped, stopped) = result at h
  cases h with
  | refused | unstarted | broken => cases hResult
  | @finished person started replayed hPerson hStarts hReplayed =>
      rcases finishRebase_cases branch replayed with ⟨e, finished, hFinish, -⟩ | ⟨new, -, hFinish⟩
      · cases hResult.trans hFinish
      · cases hResult.trans hFinish
  | @stopped person started stopped' hPerson hStarts hReplayed =>
      obtain ⟨-, rfl⟩ := Prod.mk.inj hResult
      rcases replayAll_cases (P := fun _ => True) hReplayed trivial (fun _ _ _ _ _ _ => trivial) with
        ⟨last, hApplied, -⟩ | ⟨last, commit, -, -, hReplay, -⟩
      · cases hApplied
      · cases hReplay with
        | stopped hSafe hSwitch hConflicts hShown => exact fun hNone => hConflicts (List.map_eq_nil_iff.1 hNone)

/-- A pull that stops leaves open conflicts. -/
theorem conflicts_of_pull (h : c.pull committer reach remote = (.ok .stopped, stopped)) :
    stopped.index.conflicts ≠ [] := by
  have hPulls := c.pulls committer reach remote
  rw [h] at hPulls
  cases hPulls with
  | @integrates branch fetched tip base _ hHead hFetch hTip hBase hResult =>
      generalize hEq : (Except.ok RebaseStatus.stopped, stopped) = result at hResult
      cases hResult with
      | upToDate | refused => cases hEq
      | forwards =>
          have hForwards := fetched.forwards branch base
          rw [← hEq] at hForwards
          cases hForwards.of_ok.1
      | rebases =>
          have hRebases := fetched.rebases committer branch (RefName.tracking remote branch).text tip base
          rw [← hEq] at hRebases
          exact hRebases.conflicts

/-- What it takes for a sync to record the files where a rebase has stopped at a commit. Whether the conflicts
were resolved does not matter. -/
structure Recordable (author : Option Person) (message : String) (current : Commit) (c : Checkout) : Prop where
  author : author ≠ none
  message : '\x00' ∉ message.toList
  present : ∀ path ∈ c.index.conflicts, c.work.get? path ≠ none
  changed : c.stagedAll.staged ≠ current.tree

end Checkout

namespace Workspace

variable {w : Workspace} {author : Option Person} {remote message : String} {credential : Credential}
  {current : Commit} {progress : Progress}

/-- Where pulling and pushing are refused the last two commands of a sync fail, and change nothing. -/
theorem steps_of_refused {e : TransportError}
    (hPull : w.checkout.pull author w.reach remote = (.error e, w.checkout))
    (hPush : w.push remote none false = (.error e, w)) (hHalted : progress.halted = false) :
    ∃ last, (backend author).steps credential [.pull remote, .push remote none false] progress w = (last, w) ∧
      last.failure = some (.command "push" e) := by
  have hPulls : (backend author).perform (.pull remote) credential w = (.error e, w) :=
    backend_perform_error (perform_pull hPull) credential
  have hPushes : (backend author).perform (.push remote none false) credential w = (.error e, w) :=
    backend_perform_error (perform_push hPush) credential
  have hGoesOn : (progress.after ⟨.pull remote, some credential, .error e⟩).halted = false :=
    Progress.halted_after hHalted rfl
  refine ⟨_, (Backend.steps_of_perform hHalted rfl hPulls).trans
    (Backend.steps_of_perform hGoesOn rfl hPushes), ?_⟩
  rw [Progress.after, Progress.absorb_eq]
  rfl

/-- Staging on no branch, and recording what was staged, keeps a checkout on none. -/
theorem detached_of_recording {staged : Checkout} (hHead : staged.head = .detached current)
    (author : Option Person) (message : String) :
    ∃ commit, (staged.commit author message).2.head = .detached commit := by
  rcases staged.commit_cases author message with
    ⟨person, repo, -, -, -, hRepo, hCommit⟩ | ⟨e, hCommit⟩
  · rcases Repository.advance_head hRepo with ⟨branch, hBranch, -⟩ | ⟨before, -, hMoved⟩
    · cases hBranch.symm.trans hHead
    · exact ⟨_, by rw [hCommit]; exact hMoved⟩
  · exact ⟨current, by rw [hCommit, hHead]⟩

/-- The first three commands of a sync, whether they fail or not: all files are staged, and recorded if a
status sees something to record. -/
theorem steps_of_recording (w : Workspace) (author : Option Person) (message : String)
    (credential : Credential) {report : StatusReport} (hReport : w.checkout.addAll.2.status = .ok report)
    (rest : List Command) :
    ∃ recorded : Progress, recorded.halted = false ∧
      (backend author).steps credential (.plain .addAll :: .status :: .commit message :: rest) .start w =
        (backend author).steps credential rest recorded { w with
          checkout := if report.pending = 0 then w.checkout.addAll.2
            else (w.checkout.addAll.2.commit author message).2 } := by
  obtain ⟨hHalted, -, hNext⟩ := (backend author).steps_up_to_commit credential message w
  have hStatus : ((backend author).perform .status credential ⟨w.checkout.addAll.2, w.reach⟩).1 = .ok report :=
    congrArg Reply.ofExcept hReport
  refine ⟨_, hHalted, ((backend author).steps_append credential [.plain .addAll, .status, .commit message]
    rest .start w).trans ?_⟩
  rcases hNext with ⟨report', hReport', hNothing, hLeftOut⟩ | ⟨hSeen, hCalled⟩
  · obtain rfl : report = report' := Reply.ok.inj (hStatus.symm.trans hReport')
    rw [hLeftOut, if_pos hNothing]
    rfl
  · rw [hCalled, if_neg (hSeen report hStatus)]
    rfl

/-- A sync on no branch fails. It stages the files, and records them if a status sees something to record. -/
theorem sync_of_detached (w : Workspace) (author : Option Person) (remote message : String)
    (credential : Credential) (hHead : w.checkout.head = .detached current) :
    let staged := w.checkout.addAll.2
    ∃ report cause, staged.status = .ok report ∧
      (backend author).execute .silent (.sync remote message) credential w =
        (.failed .sync (.command "push" (.failed Checkout.detachedMessage)) cause, { w with
          checkout := if report.pending = 0 then staged else (staged.commit author message).2 }) := by
  intro staged
  have hStaged : staged.head = .detached current := by
    rcases w.checkout.addAll_cases with ⟨-, hAdd⟩ | ⟨-, hAdd⟩
    · rw [← hHead, show staged = _ from congrArg Prod.snd hAdd]
    · rw [← hHead, show staged = _ from congrArg Prod.snd hAdd]
  obtain ⟨report, hReport⟩ : ∃ report, staged.status = .ok report :=
    ⟨_, by rw [Checkout.status, hStaged, if_neg Head.noConfusion]⟩
  obtain ⟨progress, hHalted, hSteps⟩ := w.steps_of_recording author message credential hReport
    [.pull remote, .push remote none false]
  -- recorded or not, `HEAD` is detached, so pull and push refuse alike
  generalize hRecorded :
    (if report.pending = 0 then staged else (staged.commit author message).2) = recorded at hSteps
  have hRefuses : Refuses ⟨recorded, w.reach⟩ := by
    obtain ⟨commit, hDetached⟩ := detached_of_recording hStaged author message
    split at hRecorded
    · exact refuses_of_detached (hRecorded ▸ hStaged)
    · exact refuses_of_detached (hRecorded ▸ hDetached)
  obtain ⟨hPull, hPush⟩ := hRefuses author remote false
  obtain ⟨last, hLast, hFailure⟩ := steps_of_refused hPull hPush hHalted
  have hRun : (backend author).steps credential (Operation.sync remote message).steps .start w =
      (last, ⟨recorded, w.reach⟩) := hSteps.trans hLast
  exact ⟨report, _, hReport, hRecorded ▸ Backend.execute_of_failure .silent hRun hFailure rfl⟩

/-- What a sync makes of a checkout that stands at a commit, with paths in conflict. -/
structure Leaves (author : Option Person) (message : String) (current : Commit) (c c' : Checkout) : Prop where
  refs : c'.refs = c.refs
  rebase : c'.rebase = c.rebase
  work : c'.work = c.work
  recorded : c.Recordable author message current → ∃ person, author = some person ∧ c'.head =
    .detached (.on (some current) (.record c.stagedAll.staged person person message)) ∧ c'.index.conflicts = []
  unrecorded : ¬ c.Recordable author message current → c'.head = c.head

/-- On a stopped rebase staging settles the conflicts, and a commit follows when something is pending. -/
theorem leaves_of_stopped {c : Checkout} (hHead : c.head = .detached current) (hConflicts : c.index.conflicts ≠ [])
    (hFree : c.isLocked ["HEAD"] = false) (hIndex : c.isLocked ["index"] = false) (author : Option Person)
    (message : String) {report : StatusReport} (hReport : c.addAll.2.status = .ok report) :
    Leaves author message current c
      (if report.pending = 0 then c.addAll.2 else (c.addAll.2.commit author message).2) := by
  have hTree : c.headTree = current.tree := Repository.headTree_of_headCommit? (by rw [Repository.headCommit?, hHead])
  rcases c.addAll_cases with ⟨hStageable, hAdd⟩ | ⟨hUnstageable, hAdd⟩
  · rw [hAdd] at hReport ⊢
    obtain ⟨report', hReport', hPending⟩ := c.status_of_stagedAll (by rw [hHead]; exact Head.noConfusion)
    obtain rfl := Except.ok.inj (hReport.symm.trans hReport')
    rw [hTree] at hPending
    have hStaged : ({ c with index := c.stagedAll } : Checkout).head = .detached current := hHead
    by_cases hNothing : report.pending = 0
    · rw [if_pos hNothing]
      exact ⟨rfl, rfl, rfl, fun h => absurd (hPending.1 hNothing) h.changed, fun _ => rfl⟩
    · rw [if_neg hNothing]
      rcases Checkout.commit_of_detached hStaged hFree author message with
        ⟨person, rfl, hMessage, -, hCommit⟩ | ⟨hRefused, e, hCommit⟩
      · rw [hCommit]
        refine ⟨rfl, rfl, rfl, fun _ => ⟨person, rfl, rfl, rfl⟩, fun h => absurd ?_ h⟩
        exact ⟨Option.some_ne_none person, hMessage, hStageable.present, fun hSame => hNothing (hPending.2 hSame)⟩
      · rw [hCommit]
        refine ⟨rfl, rfl, rfl, fun h => ?_, fun _ => rfl⟩
        rcases hRefused with hAuthor | hMessage | hLeft
        · exact absurd hAuthor h.author
        · exact absurd hMessage h.message
        · exact absurd rfl hLeft
  -- staging that fails leaves the conflicts open, and these forbid the commit
  · rw [hAdd]
    have hUnrecordable : ¬ c.Recordable author message current := fun h => hUnstageable ⟨h.present, hIndex⟩
    split
    · exact ⟨rfl, rfl, rfl, fun h => absurd h hUnrecordable, fun _ => rfl⟩
    · rcases Checkout.commit_of_detached hHead hFree author message with
        ⟨person, -, -, hNone, -⟩ | ⟨-, e, hCommit⟩
      · exact absurd hNone hConflicts
      · rw [hCommit]
        exact ⟨rfl, rfl, rfl, fun h => absurd h hUnrecordable, fun _ => rfl⟩

/-- A sync after a pull or a sync that stopped, whatever the files are by then and whatever the remote has. It
fails, and no branch moves. But where the files can be recorded it makes a commit of them on top of the
one that the rebase stopped at, with each path in conflict as its file is, and the conflicts are
forgotten. Otherwise the repository stays at its commit. -/
theorem sync_of_stopped {start w : Workspace} {operation : Operation} {kind : OperationKind} {cause : String}
    {committer : Option Person}
    (hStopped : (backend committer).execute .silent operation credential start =
      (.failed kind (.pull .rebaseFailed) cause, w))
    (work : Tree) (reach : Reach) (author : Option Person) (remote message : String) (password : Credential) :
    let c : Checkout := { w.checkout with work }
    ∃ current c' cause, c.head = .detached current ∧ c.index.conflicts ≠ [] ∧
      (backend author).execute .silent (.sync remote message) password ⟨c, reach⟩ =
        (.failed .sync (.command "push" (.failed Checkout.detachedMessage)) cause, ⟨c', reach⟩) ∧
      c'.refs = c.refs ∧ c'.rebase = c.rebase ∧ c'.work = work ∧
      (c.Recordable author message current → ∃ new person, author = some person ∧ c'.head = .detached new ∧
        new = .on (some current) (.record c.stagedAll.staged person person message) ∧
        (∀ path ∈ c.index.conflicts, new.tree.get? path = work.get? path) ∧ c'.index.conflicts = []) ∧
      (¬ c.Recordable author message current → c'.head = c.head) := by
  intro c
  obtain ⟨remote₀, before, hPerform⟩ := Backend.stopped_of_execute hStopped
  obtain ⟨hPull, -⟩ := pull_of_perform hPerform
  obtain ⟨branch, hBranch⟩ := Checkout.currentBranch_of_pull hPull
  obtain ⟨tip, hTip⟩ := Checkout.tip_of_currentBranch hBranch
  obtain ⟨fetched, current, -, hUnderway, -, hFree, hIndex, -⟩ :=
    Checkout.pull_stopped (Checkout.currentBranch_eq_ok hBranch) hTip hPull
  have hLeft := Checkout.conflicts_of_pull hPull
  -- the user may edit the work tree in between, but `HEAD` stays where the replay stopped
  have hHead : c.head = .detached current := congrArg (·.head) hUnderway.rest
  have hStrays : c.strays = fetched.strays := congrArg (·.strays) hUnderway.rest
  have hLocked (path : TreePath) : c.isLocked path = fetched.isLocked path := by
    rw [Repository.isLocked, Repository.isLocked, hStrays]
  obtain ⟨report, cause, hReport, hSync⟩ := sync_of_detached ⟨c, reach⟩ author remote message password hHead
  obtain ⟨hRefs, hRebase, hWork, hRecorded, hUnrecorded⟩ := @leaves_of_stopped current c hHead hLeft
    ((hLocked _).trans hFree) ((hLocked _).trans hIndex) author message report hReport
  refine ⟨current, _, cause, hHead, hLeft, hSync, hRefs, hRebase, hWork, ?_, hUnrecorded⟩
  intro hRecordable
  obtain ⟨person, hAuthor, hMoved, hSettled⟩ := hRecorded hRecordable
  refine ⟨_, person, hAuthor, hMoved, rfl, fun path hPath => ?_, hSettled⟩
  exact (c.get?_stagedAll path).trans (c.stagedContent_of_conflict hPath)

open Checkout (standingAt reachAt writer writes)

/-- The operation that pulls fails of a pull that stops. -/
theorem execute_pull_of_stopped {w : Workspace} {stopped : Checkout}
    (hPull : w.checkout.pull author w.reach remote = (.ok .stopped, stopped)) (credential : Credential) :
    ∃ cause, (backend author).execute .silent (.pull remote) credential w =
      (.failed .pull (.pull .rebaseFailed) cause, { w with checkout := stopped }) := by
  have hSteps : (backend author).steps credential (Operation.pull remote).steps .start w =
      (Progress.start.after ⟨.pull remote, some credential, .ok .stopped⟩, { w with checkout := stopped }) :=
    Backend.steps_of_perform rfl rfl (backend_perform (perform_pull hPull) credential)
  have hFailure : (Progress.start.after ⟨.pull remote, some credential, .ok .stopped⟩).failure =
      some (.pull .rebaseFailed) := by
    rw [Progress.after, Progress.absorb_eq]
    rfl
  exact ⟨_, Backend.execute_of_failure .silent hSteps hFailure rfl⟩

/-- The remote and the checkout have written the same new file, and a sync follows on the pull that stopped. -/
theorem sync_of_stopped_conflict :
    let tip := writes "b" "2" (some (writes "a" "1" none))
    let base := writes "b" "3" (some (writes "a" "1" none))
    let pulled := (standingAt tip).pull (some writer) (reachAt base) "origin"
    let synced := (backend (some writer)).execute .silent (.sync "origin" "note") (.password "" "")
      ⟨pulled.2, reachAt base⟩
    pulled.1.toOption = some .stopped ∧ pulled.2.index.conflicts = [["b"]] ∧
      ∃ current new, pulled.2.head = .detached current ∧ synced.2.checkout.head = .detached new ∧
        new.parents = [current] ∧ new.tree.get? ["b"] = pulled.2.work.get? ["b"] := by
  intro tip base pulled synced
  have hStopped : pulled.1.toOption = some .stopped := by decide +kernel
  have hConflicts : pulled.2.index.conflicts = [["b"]] := by decide +kernel
  have hPull : (standingAt tip).pull (some writer) (reachAt base) "origin" = (.ok .stopped, pulled.2) :=
    Prod.ext (Checkout.eq_ok_of_toOption hStopped) rfl
  obtain ⟨cause, hExecute⟩ :=
    @execute_pull_of_stopped (some writer) "origin" ⟨standingAt tip, reachAt base⟩ _ hPull (.password "" "")
  obtain ⟨current, c', cause', hHead, -, hSync, -, -, -, hRecorded, -⟩ :=
    sync_of_stopped hExecute pulled.2.work (reachAt base) (some writer) "origin" "note" (.password "" "")
  have hCurrent : pulled.2.head = .detached base := by decide +kernel
  obtain rfl : base = current := Head.detached.inj (hCurrent.symm.trans hHead)
  obtain ⟨new, person, -, hMoved, hNew, hFiles, -⟩ := hRecorded ⟨Option.some_ne_none writer, by decide,
    by decide +kernel, by decide +kernel⟩
  have hSynced : synced.2.checkout = c' := congrArg (·.2.checkout) hSync
  refine ⟨hStopped, hConflicts, base, new, hHead, hSynced ▸ hMoved, by rw [hNew]; rfl, hFiles ["b"] ?_⟩
  rw [hConflicts]
  exact List.mem_singleton_self _

/-- A sync after the one that stopped records the marks of a conflict that nobody has resolved. -/
theorem sync_records_conflict :
    let tip := writes "b" "2" (some (writes "a" "1" none))
    let base := writes "b" "3" (some (writes "a" "1" none))
    let pulled := (standingAt tip).pull (some writer) (reachAt base) "origin"
    let synced := (backend (some writer)).execute .silent (.sync "origin" "note") (.password "" "")
      ⟨pulled.2, reachAt base⟩
    pulled.1.toOption = some .stopped ∧ pulled.2.index.conflicts = [["b"]] ∧
      pulled.2.headTree.get? ["b"] = some "3".toUTF8 ∧ synced.1.isSuccess = false ∧
      synced.2.checkout.head ≠ pulled.2.head ∧ synced.2.checkout.headTree.get? ["b"] =
        some "<<<<<<< refs/remotes/origin/master\n3\n=======\n2\n>>>>>>> b\n".toUTF8 := by
  decide +kernel

end Workspace

end VaultSync.Git
