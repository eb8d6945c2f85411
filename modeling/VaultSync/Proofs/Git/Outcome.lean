import VaultSync.Proofs.Git.Rebase
import VaultSync.Proofs.Git.Stands

/-! What a successful pull makes of a checkout without pending changes: where its branch ends, what became of
the commits that the remote does not have, and which files there are. -/
namespace VaultSync.Git

namespace Commit

variable {base commit : Commit} {commits : List Commit} {made : List Revision}

/-- Commits are recorded again on top of a base, each with the change that it made. Those are left out that
change nothing there. -/
inductive Rebased (committer : Person) (onto : String) : Commit → List Commit → List Revision → Prop
  | nil {base : Commit} : Rebased committer onto base [] []
  | leftOut {base commit : Commit} {commits : List Commit} {made : List Revision}
      (hMerge : commit.mergeInto onto base.tree = ⟨base.tree, []⟩)
      (hRest : Rebased committer onto base commits made) :
      Rebased committer onto base (commit :: commits) made
  | recorded {base commit : Commit} {commits : List Commit} {made : List Revision} {tree : Tree}
      (hMerge : commit.mergeInto onto base.tree = ⟨tree, []⟩) (hChange : tree ≠ base.tree)
      (hRest : Rebased committer onto (.on (some base) (commit.remade committer tree)) commits made) :
      Rebased committer onto base (commit :: commits) (commit.remade committer tree :: made)

/-- The new revisions keep the order, the authors and the messages. -/
theorem Rebased.sublist {committer : Person} {onto : String} (h : Rebased committer onto base commits made) :
    (made.map fun revision => (revision.author, revision.message)).Sublist
      (commits.map fun commit => (commit.revision.author, commit.revision.message)) := by
  induction h with
  | nil => exact .slnil
  | leftOut hMerge hRest ih => exact ih.cons _
  | recorded hMerge hChange hRest ih => exact ih.cons_cons _

end Commit

namespace Checkout

variable {c c' start : Checkout} {committer : Person} {onto branch : String} {tip base commit current : Commit}
  {commits : List Commit} {source target : Tree} {merged : TreeMerge} {report : StatusReport}

/-! ### Files of a commit -/

/-- The files are those of a tree, but for ignored files that a checkout had before, and for its paths in
conflict. -/
def Shows (start : Checkout) (tree work : Tree) : Prop :=
  ∀ p, p ∉ start.index.conflicts → work.get? p = tree.get? p ∨
    (tree.get? p = none ∧ start.standing p = .ignored ∧ work.get? p = start.work.get? p)

/-- A status without pending changes and untracked files says that the work tree shows the tree of `HEAD`. -/
theorem shows_of_status (hStatus : c.status = .ok report) (hPending : report.pending = 0)
    (hUntracked : report.untracked = 0) : Shows c c.headTree c.work := by
  intro p hp
  obtain ⟨hStaged, hFiles⟩ := staged_of_pending hStatus hPending hp
  obtain rfl := status_eq_ok hStatus
  have hSeen := standing_ne_of_count (by decide) hUntracked p
  cases hHead : c.headTree.get? p with
  | some content => exact .inl (hFiles content hHead)
  | none =>
      cases hWork : c.work.get? p with
      | none => exact .inl rfl
      | some content =>
          refine .inr ⟨rfl, ?_, rfl⟩
          have hSettled : c.index.conflicts.contains p = false := by simpa using hp
          rw [standing, hSettled, hStaged, hHead, hWork] at hSeen ⊢
          by_cases hIgnored : Ignore.isIgnored c p = true
          · simp [hIgnored]
          · simp [hIgnored] at hSeen

/-- A switch between two trees makes a work tree that shows the one show the other. -/
theorem Shows.switched (h : Shows start source c.work) (hSwitch : c.Switches source target (.done c')) :
    Shows start target c'.work := by
  intro p hp
  cases hSwitch with
  | done hConflicts hFree hSafe hWork hStaged =>
      rw [hWork, afterSwitch]
      split
      · rename_i hSame
        exact hSame ▸ h p hp
      · exact .inl rfl

/-- When a rebase has started, the work tree shows the tree that it is onto. -/
theorem Shows.started (h : Shows start c.headTree c.work) (hStarts : Starts branch tip base c (.ok (), c')) :
    Shows start base.tree c'.work := by
  cases hStarts with
  | started hIdle hSwitch hFree =>
      have hFiles := h.switched hSwitch
      exact hFiles

/-- A commit that was replayed had no conflicts, and the work tree shows its merge. -/
theorem Shows.replayed (h : Shows start c.headTree c.work)
    (hReplay : Replays committer c commit merged (.applied c')) :
    merged.conflicts = [] ∧ Shows start merged.settled c'.work := by
  cases hReplay with
  | leftOut hSwitch hClean hNothing => exact ⟨hClean, h.switched hSwitch⟩
  | recorded hSafe hSwitch hClean hChange hAdvance =>
      have hFiles := h.switched hSwitch
      obtain ⟨repo, hRepo, rfl⟩ := within_eq_some_iff.1 hAdvance
      exact ⟨hClean, hFiles⟩

/-! ### Rebasing -/

/-- A replay of all commits that comes to its end has recorded them again on the base, in their order, but
for those that change nothing. -/
theorem Underway.replayAll {origin : Checkout} (h : Underway origin branch tip base c)
    (hShows : Shows start base.tree c.work) (hReplayed : replayAll committer onto c commits = .applied c') :
    ∃ made, Commit.Rebased committer onto base commits made ∧
      Underway origin branch tip (base.extend made) c' ∧ Shows start (base.extend made).tree c'.work := by
  -- the invariant is carried from commit to commit: the rebase is under way and the work tree shows its tree
  induction commits generalizing c base with
  | nil =>
      obtain rfl := Replayed.applied.inj hReplayed
      exact ⟨[], .nil, h, hShows⟩
  | cons commit commits ih =>
      have hReplays := replays committer onto c commit
      rw [Checkout.replayAll] at hReplayed
      generalize replay committer onto c commit = first at hReplays hReplayed
      cases first with
      | stopped c' => cases hReplayed
      | broken step c' => cases hReplayed
      | applied next =>
          rw [h.headTree] at hReplays
          obtain ⟨hClean, hFiles⟩ := Shows.replayed (h.headTree ▸ hShows) hReplays
          have hMerge : commit.mergeInto onto base.tree = ⟨(commit.mergeInto onto base.tree).settled, []⟩ := by
            rw [← hClean]
          rcases h.applied hReplays with ⟨hNothing, hNext⟩ | ⟨hChange, hNext⟩
          · rw [hNothing] at hMerge hFiles
            obtain ⟨made, hRebased, hRest⟩ := ih hNext hFiles hReplayed
            exact ⟨made, .leftOut hMerge hRebased, hRest⟩
          · obtain ⟨made, hRebased, hRest⟩ := ih hNext hFiles hReplayed
            exact ⟨_, .recorded hMerge hChange hRebased, hRest⟩

/-! ### Pulling -/

/-- A successful pull into a checkout on a branch, without pending changes and untracked files. The branch
stays when it has the remote's commit already, and moves to that commit when it has no others. Otherwise its
own commits, which lie in a line, are recorded again on top of the remote's; or the rebase has stopped, with
the branch as it was. But for a stop the files are then those of the branch. Paths in conflict keep a branch
where it is. -/
theorem pull_outcome {committer : Option Person} {reach : Reach} {remote url : String} {origin : Repository}
    {own : List Commit} {status : RebaseStatus} (hHead : c.head = .branch branch)
    (hTip : c.refs.get? (.branch branch) = some tip) (hStatus : c.status = .ok report)
    (hPending : report.pending = 0) (hUntracked : report.untracked = 0)
    (hUrl : c.remotes.lookup remote = some url) (hOrigin : reach url = .ok origin)
    (hOnce : (origin.refs.map (·.1)).Nodup) (hBase : origin.refs.get? (.branch branch) = some base)
    (hOwn : Commit.Chain base tip own) (hPull : c.pull committer reach remote = (.ok status, c')) :
    match status with
    | .upToDate => base.isAncestorOf tip = true ∧ c'.head = .branch branch ∧
        c'.refs.get? (.branch branch) = some tip ∧ Shows c tip.tree c'.work
    | .fastForward => tip.isAncestorOf base = true ∧ c'.head = .branch branch ∧
        c'.refs.get? (.branch branch) = some base ∧ c.index.conflicts = [] ∧ Shows c base.tree c'.work
    | .ok => ∃ person new made, committer = some person ∧
        Commit.Rebased person (RefName.tracking remote branch).text base own made ∧
        (made.map fun revision => (revision.author, revision.message)).Sublist
          (own.map fun commit => (commit.revision.author, commit.revision.message)) ∧
        new = base.extend made ∧ new.history = made.reverse ++ base.history ∧ c'.head = .branch branch ∧
        c'.refs.get? (.branch branch) = some new ∧ c'.isRebasing = false ∧ c.index.conflicts = [] ∧
        Shows c new.tree c'.work
    | .stopped => c'.refs.get? (.branch branch) = some tip ∧ ∃ commit, c'.head = .detached commit := by
  have hHeadTree : c.headTree = tip.tree :=
    Repository.headTree_of_headCommit? (Repository.headCommit?_of_branch hHead hTip)
  obtain ⟨fetched, hFetch, hPulled⟩ := pulled_of_ok hHead hTip hPull
  have hFetched := fetches hFetch
  have hSeen := fetch_get? hUrl hOrigin hOnce hBase hFetch
  have hShows : Shows c fetched.headTree fetched.work := by
    rw [hFetched.headTree, hFetched.rest]
    exact shows_of_status hStatus hPending hUntracked
  have hSettled (h : fetched.index.conflicts = []) : c.index.conflicts = [] := by
    rw [hFetched.rest] at h
    exact h
  cases hPulled with
  | upToDate hKnown =>
      refine ⟨hKnown base hSeen, ?_, (hFetched.branch branch).trans hTip, ?_⟩
      · rw [hFetched.rest, hHead]
      · rw [hFetched.headTree, hHeadTree] at hShows
        exact hShows
  | @fastForward base' switched hBase' hAncestor hSwitch =>
      obtain rfl : base = base' := Option.some.inj (hSeen.symm.trans hBase')
      have hFiles := hShows.switched hSwitch
      exact ⟨hAncestor, rfl, by simp [Refs.get?_set], hSettled (hSwitch.settled Switched.noConfusion), hFiles⟩
  | @rebased base' new person started replayed hBase' hPerson hStarts hReplayed hNew =>
      obtain rfl : base = base' := Option.some.inj (hSeen.symm.trans hBase')
      -- what is replayed is the chain of own commits, whatever the remote has merged
      rw [hOwn.ahead] at hReplayed
      obtain ⟨made, hRebased, hReplaying, hFiles⟩ :=
        hStarts.underway.replayAll (hShows.started hStarts) hReplayed
      obtain rfl : base.extend made = new := Option.some.inj (hReplaying.headCommit?.symm.trans hNew)
      refine ⟨person, _, made, hPerson, hRebased, hRebased.sublist, rfl, Commit.history_extend base made, rfl,
        ?_, ?_, hSettled hStarts.settled, hFiles⟩
      · simp [Refs.get?_set]
      · have hIdle := (Bool.or_eq_false_iff.1 hStarts.idle.1).2
        rw [hReplaying.rest]
        simpa [Repository.isRebasing, Repository.hasStrayRebase] using hIdle
  | @stopped base' current report' started _ hReport hNothing hStarts hUnderway =>
      refine ⟨?_, current, by rw [hUnderway.rest]⟩
      rw [hUnderway.rest]
      exact (hFetched.branch branch).trans hTip

/-- Who makes the commits of the examples. -/
def writer : Person := ⟨"writer", "writer@example.org"⟩

/-- A commit that leaves one more file than those before it. -/
def writes (name content : String) (parent : Option Commit) : Commit :=
  .on parent (.record ((treeOf parent).put [name] content.toUTF8) writer writer name)

/-- A checkout on a commit, with its files. -/
def standingAt (tip : Commit) : Checkout :=
  { Repository.init false with
    refs := [(.branch "master", tip)], remotes := [("origin", "o")], index := .ofTree tip.tree
    work := tip.tree }

/-- The only repository that can be reached, with its branch at a commit. -/
def reachAt (tip : Commit) : Reach := fun _ =>
  .ok { Repository.init true with refs := [(.branch "master", tip)] }

theorem eq_ok_of_toOption {ε α : Type} {result : Except ε α} {a : α} (h : result.toOption = some a) :
    result = .ok a := by
  cases result with
  | error e => cases h
  | ok b => exact congrArg Except.ok (Option.some.inj h)

/-- The checkout has a commit on top of one that came to the remote's branch by a merge. -/
theorem pull_outcome_diverged :
    let shared := writes "a" "1" none
    let tip := writes "b" "2" (some shared)
    let main := writes "c" "3" none
    let base : Commit := ⟨.record (main.tree.put ["a"] "1".toUTF8) writer writer "merge", [main, shared]⟩
    let pulled := (standingAt tip).pull (some writer) (reachAt base) "origin"
    pulled.1.toOption = some .ok ∧
      ∃ new made, pulled.2.refs.get? (.branch "master") = some new ∧
        Commit.Rebased writer (RefName.tracking "origin" "master").text base [tip] made ∧
        new.history = made.reverse ++ base.history := by
  intro shared tip main base pulled
  have hTip : (standingAt tip).refs.get? (.branch "master") = some tip := rfl
  have hStatus : (standingAt tip).status = .ok ⟨0, 0, 0⟩ := eq_ok_of_toOption (by decide +kernel)
  have hOwn : Commit.Chain base tip [tip] := .next (.known (by decide +kernel)) (by decide +kernel)
  have hResult : pulled.1.toOption = some .ok := by decide +kernel
  have hPull : (standingAt tip).pull (some writer) (reachAt base) "origin" = (.ok .ok, pulled.2) :=
    Prod.ext (eq_ok_of_toOption hResult) rfl
  obtain ⟨person, new, made, hPerson, hRebased, -, -, hHistory, -, hNew, -⟩ :=
    pull_outcome rfl hTip hStatus rfl rfl rfl rfl (by decide) rfl hOwn hPull
  obtain rfl := Option.some.inj hPerson
  exact ⟨hResult, new, made, hNew, hRebased, hHistory⟩

/-- A branch that the remote has merged moves on to the merge, whichever of its parents the branch was. -/
example :
    let shared := writes "a" "1" none
    let tip := writes "b" "2" (some shared)
    let main := writes "c" "3" (some shared)
    let base : Commit := ⟨.record (main.tree.put ["b"] "2".toUTF8) writer writer "merge", [main, tip]⟩
    let pulled := (standingAt tip).pull none (reachAt base) "origin"
    pulled.1.toOption = some .fastForward ∧ pulled.2.refs.get? (.branch "master") = some base ∧
      pulled.2.work = base.tree := by
  decide +kernel

/-- Ignored files, and what is shown of a conflict, are neither pending nor untracked. They stay in the work
tree although the tree of the branch is another one. -/
theorem pull_shows_more :
    let rules := writes ".gitignore" "x" none
    let ignoring := { standingAt rules with work := rules.tree.put ["x"] "1".toUTF8 }
    let ignored := ignoring.pull (some writer) (reachAt rules) "origin"
    let note := writes "note" "1" none
    let merging := { standingAt note with
      index := ⟨note.tree, [["note"]]⟩, work := note.tree.put ["note"] "2".toUTF8 }
    let merged := merging.pull (some writer) (reachAt note) "origin"
    (ignoring.status.toOption = some ⟨0, 0, 0⟩ ∧ ignored.1.toOption = some .upToDate ∧
      ignored.2.work ≠ treeOf (ignored.2.refs.get? (.branch "master"))) ∧
    (merging.status.toOption = some ⟨0, 0, 0⟩ ∧ merged.1.toOption = some .upToDate ∧
      merged.2.work ≠ treeOf (merged.2.refs.get? (.branch "master"))) := by
  decide +kernel

end Checkout

end VaultSync.Git
