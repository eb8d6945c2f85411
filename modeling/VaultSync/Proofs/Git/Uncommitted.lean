import VaultSync.Proofs.Git.Clean
import VaultSync.Proofs.Git.History
import VaultSync.Proofs.Git.Merge
import VaultSync.Proofs.Git.Rebase

/-! What a pull does to work that is not committed. Without rules every file beside the tracked ones is seen,
and a careful step that would overwrite it does not happen; with changes to tracked files nothing happens. -/
namespace VaultSync.Git

/-! ### Trees without rules -/

/-- No file of a tree can hold rules. -/
def Tree.Plain (tree : Tree) : Prop :=
  ∀ base, tree.get? (base ++ [".gitignore"]) = none

theorem Tree.Plain.ruleless {tree : Tree} (h : tree.Plain) : tree.Ruleless := by
  intro base content hContent
  rw [h base] at hContent
  cases hContent

theorem Tree.plain_of_paths {tree : Tree} (h : ∀ path ∈ tree.paths, path.getLast? ≠ some ".gitignore") :
    tree.Plain := by
  intro base
  refine Classical.byContradiction fun hSome => ?_
  exact h _ (mem_paths.2 hSome) List.getLast?_concat

/-- The merge of plain trees is plain. -/
theorem Tree.Plain.settled {labels : MergeLabels} {base ours theirs : Tree}
    (h : ∀ tree ∈ [base, ours, theirs], tree.Plain) : (mergeTrees labels base ours theirs).settled.Plain := by
  intro dir
  refine Classical.byContradiction fun hSome => ?_
  obtain ⟨tree, hTree, hSome⟩ := get?_settled_mergeTrees hSome
  exact hSome (h tree hTree dir)

namespace Commit

variable {commit other : Commit}

/-- Neither a commit nor any before it has rules. -/
def Plain (commit : Commit) : Prop :=
  ∀ before ∈ commit.ancestors, before.tree.Plain

theorem Plain.tree (h : commit.Plain) : commit.tree.Plain :=
  h commit commit.mem_ancestors_self

theorem Plain.mono (h : other.Plain) (hBefore : commit ∈ other.ancestors) : commit.Plain :=
  fun before hMem => h before (mem_ancestors_trans hMem hBefore)

theorem Plain.parent (h : commit.Plain) : (treeOf commit.parent?).Plain := by
  cases hParent : commit.parent? with
  | none => exact fun _ => rfl
  | some parent => exact h parent (mem_ancestors_of_parent (List.mem_of_mem_head? hParent))

end Commit

namespace Checkout

variable {c c' : Checkout} {committer : Person} {onto branch : String} {tip base commit current : Commit}
  {p : TreePath} {content : ByteArray} {target : Tree} {merged : TreeMerge} {report : StatusReport}

/-! ### Files beside the tracked ones -/

/-- A file of the work tree that neither the last commit nor the index has. There are no rules that could
leave it out. -/
structure Beside (p : TreePath) (content : ByteArray) (c : Checkout) : Prop where
  present : c.work.get? p = some content
  unstaged : c.index.staged.get? p = none
  uncommitted : c.headTree.get? p = none
  own : c.Ruleless
  plain : c.work.Plain
  committed : c.headTree.Plain

namespace Beside

theorem isIgnored (h : Beside p content c) : Ignore.isIgnored c p = false :=
  isIgnored_eq_false h.own h.plain.ruleless p

/-- A file beside the tracked ones is at risk, so a replay looks out for it. -/
theorem isAtRisk (h : Beside p content c) (hConflicts : c.index.conflicts = []) : c.isAtRisk p = true := by
  have hStanding : c.standing p = .untracked := by
    rw [standing, hConflicts]
    simp [h.uncommitted, h.unstaged, h.present, h.isIgnored]
  rw [Checkout.isAtRisk, hStanding]

/-- A careful switch does not happen if the target has such a file. -/
theorem target_eq_none (h : Beside p content c) (hSafe : c.isInWay c.headTree target p = false) :
    target.get? p = none := by
  rw [isInWay, h.uncommitted, h.present] at hSafe
  cases hTarget : target.get? p with
  | none => rfl
  | some new => simp [hTarget, h.isIgnored] at hSafe

/-- A switch that breaks off leaves a file beside the tracked ones as it is. -/
theorem switch_broken (h : Beside p content c) (hSwitch : c.Switches c.headTree target (.broken c')) :
    c'.work.get? p = some content := by
  cases hSwitch with
  | broken hConflicts hSafe hWork =>
      have hTarget := h.target_eq_none (hSafe p)
      have hSwitched : c.afterSwitch c.headTree target p = some content := by
        rw [afterSwitch, h.uncommitted, hTarget, if_pos rfl, h.present]
      have hRemoved : c.afterRemoval c.headTree target p = some content := by
        simp [afterRemoval, h.uncommitted, h.present]
      rcases hWork p with hWork | hWork
      · exact hWork.trans hSwitched
      · exact hWork.trans hRemoved

/-- A careful switch that happens leaves such a file as it is. -/
theorem switch_done (h : Beside p content c) (hPlain : target.Plain)
    (hSwitch : c.Switches c.headTree target (.done c')) :
    c'.work.get? p = some content ∧ c'.index.staged.get? p = none ∧ target.get? p = none ∧ c'.work.Plain := by
  cases hSwitch with
  | done hConflicts hFree hSafe hWork hStaged =>
      have hTarget := h.target_eq_none (hSafe p)
      refine ⟨?_, ?_, hTarget, fun base => ?_⟩
      · rw [hWork, afterSwitch, h.uncommitted, hTarget, if_pos rfl, h.present]
      · rw [Index.ofTree, hStaged, h.uncommitted, hTarget, if_pos rfl, h.unstaged]
      · rw [hWork, afterSwitch, h.plain base, hPlain base, ite_self]

/-- After a careful switch to the tree of a commit, and the move to it, the file is beside those of that
commit. -/
theorem switch {switched : Checkout} (h : Beside p content c) (hPlain : target.Plain)
    (hSwitch : c.Switches c.headTree target (.done switched)) (hTree : c'.headTree = target)
    (hMove : c' = { switched with head := c'.head, refs := c'.refs, rebase := c'.rebase }) :
    Beside p content c' := by
  obtain ⟨hPresent, hUnstaged, hTarget, hWork⟩ := h.switch_done hPlain hSwitch
  have hStrays : c'.strays = c.strays := by rw [hMove, hSwitch.rest]
  have hIndex : c'.index = switched.index := by rw [hMove]
  have hFiles : c'.work = switched.work := by rw [hMove]
  refine ⟨hFiles ▸ hPresent, hIndex ▸ hUnstaged, hTree ▸ hTarget, ?_, hFiles ▸ hWork, hTree ▸ hPlain⟩
  exact fun content hContent => h.own content (hStrays ▸ hContent)

end Beside

/-! ### Conflicts -/

/-- A conflict is shown at its own path, or at a place where nothing was. -/
theorem showConflict_eq_some {work work' : Tree} {conflict : Conflict}
    (h : showConflict work conflict = some work') :
    work' = work ∨ ∃ place content, work' = work.put place content ∧
      (place = conflict.path ∨ work.isTaken place = false) := by
  rw [showConflict] at h
  split at h
  · exact .inl (Option.some.inj h).symm
  · rename_i content _
    obtain ⟨place, hPlace, h⟩ := Option.bind_eq_some_iff.1 h
    obtain ⟨-, h⟩ := Option.ite_none_left_eq_some.1 h
    refine .inr ⟨place, content, (Option.some.inj h).symm, ?_⟩
    rw [placeFor?] at hPlace
    split at hPlace
    · exact .inl (Option.some.inj hPlace).symm
    · exact .inr (by simpa using List.find?_some hPlace)

/-- Showing conflicts leaves the files at all other paths as they are, also where it breaks off. -/
theorem get?_showConflicts {work : Tree} {conflicts : List Conflict} (hPresent : work.get? p = some content)
    (hOther : p ∉ conflicts.map (·.path)) : (showConflicts work conflicts).2.get? p = some content := by
  induction conflicts generalizing work with
  | nil => exact hPresent
  | cons conflict conflicts ih =>
      rw [List.map_cons, List.mem_cons, not_or] at hOther
      rw [showConflicts]
      split
      · rename_i work' hShow
        refine ih ?_ hOther.2
        rcases showConflict_eq_some hShow with rfl | ⟨place, shown, rfl, hPlace⟩
        · exact hPresent
        · have hNe : p ≠ place := by
            rintro rfl
            rcases hPlace with rfl | hFree
            · exact hOther.1 rfl
            · simp [Tree.isTaken, hPresent] at hFree
          rw [Tree.get?_put, if_neg hNe, hPresent]
      · exact hPresent

/-! ### Replaying -/

/-- The checkout that a replay leaves. -/
def Replayed.checkout : Replayed → Checkout
  | .applied c | .stopped c | .broken _ c => c

namespace Beside

/-- A replay leaves a file beside the tracked ones as it is, however it ends. -/
theorem replay {replayed : Replayed} (h : Beside p content c) (hPlain : merged.settled.Plain)
    (hReplay : Replays committer c commit merged replayed) : replayed.checkout.work.get? p = some content := by
  have hOther (hConflicts : c.index.conflicts = []) (hSafe : c.Spares merged) :
      p ∉ merged.conflicts.map (·.path) := by
    intro hMem
    have hRisk := hSafe p (.inr hMem)
    rw [h.isAtRisk hConflicts] at hRisk
    cases hRisk
  have hShown {switched : Checkout} {ended : Bool × Tree} (hSafe : c.Spares merged)
      (hSwitch : c.Switches c.headTree merged.settled (.done switched))
      (hEnd : showConflicts switched.work merged.conflicts = ended) : ended.2.get? p = some content := by
    have hSettled := hSwitch.settled Switched.noConfusion
    exact hEnd ▸ get?_showConflicts (h.switch_done hPlain hSwitch).1 (hOther hSettled hSafe)
  -- each way to end has switched to the merge, broken off, or not begun
  cases hReplay with
  | refused => exact h.present
  | brokenOff hSafe hSwitch => exact h.switch_broken hSwitch
  | stopped hSafe hSwitch hConflicts hEnd => exact hShown hSafe hSwitch hEnd
  | unshown hSafe hSwitch hEnd => exact hShown hSafe hSwitch hEnd
  | leftOut hSwitch hClean hNothing => exact (h.switch_done hPlain hSwitch).1
  | recorded hSafe hSwitch hClean hChange hAdvance =>
      obtain ⟨repo, hRepo, rfl⟩ := within_eq_some_iff.1 hAdvance
      exact (h.switch_done hPlain hSwitch).1
  | unrecorded hSafe hSwitch => exact (h.switch_done hPlain hSwitch).1

/-- After a commit was replayed the file is beside the files of the new commit. -/
theorem replay_applied (h : Beside p content c) (hPlain : merged.settled.Plain)
    (hReplay : Replays committer c commit merged (.applied c')) :
    Beside p content c' := by
  cases hReplay with
  | leftOut hSwitch hClean hNothing =>
      have hTree : c'.headTree = merged.settled := by
        rw [hNothing, hSwitch.rest]
        rfl
      exact h.switch hPlain hSwitch hTree rfl
  | recorded hSafe hSwitch hClean hChange hAdvance =>
      obtain ⟨repo, hRepo, rfl⟩ := within_eq_some_iff.1 hAdvance
      obtain ⟨hRest, hCommit⟩ := Repository.advance_eq_some hRepo
      have hTree : repo.headTree = merged.settled := Repository.headTree_of_headCommit? hCommit
      exact h.switch hPlain hSwitch hTree (by rw [hRest])

/-- A rebase leaves a file beside the tracked ones as it is, however it ends. -/
theorem rebaseOnto {committer : Option Person} {result : Except TransportError RebaseStatus × Checkout}
    (hPresent : c.work.get? p = some content)
    (h : c.index.conflicts = [] → Beside p content c) (hTip : tip.Plain) (hBase : base.Plain)
    (hRebase : Rebases committer branch onto tip base c result) : result.2.work.get? p = some content := by
  have hMerged {c : Checkout} {commit : Commit} (hMem : commit ∈ tip.ahead base)
      (hBeside : Beside p content c) :
      (commit.mergeInto onto c.headTree).settled.Plain := by
    have hCommit := hTip.mono (Commit.mem_ahead.1 hMem).1
    exact Tree.Plain.settled (by simpa using ⟨hCommit.parent, hBeside.committed, hCommit.tree⟩)
  -- the file is beside the tracked ones before each replay, and so before the last one
  have hRun {committer : Person} {started : Checkout} {replayed : Replayed}
      (hStarts : Starts branch tip base c (.ok (), started))
      (hReplayed : replayAll committer onto started (tip.ahead base) = replayed) :
      replayed.checkout.work.get? p = some content := by
    have hStarted : Beside p content started := by
      cases hStarts with
      | started hIdle hSwitch hFree => exact (h (hSwitch.settled (by simp))).switch hBase.tree hSwitch rfl rfl
    rcases replayAll_cases (P := Beside p content) hReplayed hStarted fun c commit c' hMem hBeside =>
        hBeside.replay_applied (hMerged hMem hBeside) with
      ⟨c', rfl, hEnd⟩ | ⟨last, commit, hMem, hLast, hReplay, -⟩
    · exact hEnd.present
    · exact hLast.replay (hMerged hMem hLast) hReplay
  cases hRebase with
  | refused => exact hPresent
  | unstarted hStarts =>
      cases hStarts with
      | refused => exact hPresent
      | brokenOff hSwitch => exact (h (hSwitch.settled (by simp))).switch_broken hSwitch
      | unmoved hSwitch => exact ((h (hSwitch.settled (by simp))).switch_done hBase.tree hSwitch).1
  | finished hPerson hStarts hReplayed =>
      rcases finishRebase_cases branch _ with ⟨e, finished, hFinish, hFiles⟩ | ⟨commit, -, hFinish⟩
      · rw [hFinish]
        exact hFiles ▸ hRun hStarts hReplayed
      · rw [hFinish]
        exact hRun hStarts hReplayed
  | stopped hPerson hStarts hReplayed => exact hRun hStarts hReplayed
  | broken hPerson hStarts hReplayed => exact hRun hStarts hReplayed

/-- A fast-forward leaves a file beside the tracked ones as it is, however it ends. -/
theorem fastForward {result : Except TransportError RebaseStatus × Checkout}
    (hPresent : c.work.get? p = some content) (h : c.index.conflicts = [] → Beside p content c)
    (hBase : base.Plain) (hForward : Forwards branch base c result) : result.2.work.get? p = some content := by
  cases hForward with
  | refused => exact hPresent
  | brokenOff hSwitch => exact (h (hSwitch.settled (by simp))).switch_broken hSwitch
  | unmoved hSwitch hWork => exact hWork ▸ ((h (hSwitch.settled (by simp))).switch_done hBase.tree hSwitch).1
  | done hSwitch => exact ((h (hSwitch.settled (by simp))).switch_done hBase.tree hSwitch).1

end Beside

/-! ### Pulling -/

/-- No rules are in the files or in a commit that is known, and none can come from another repository. -/
structure Unruled (reach : Reach) (c : Checkout) : Prop where
  own : c.Ruleless
  work : c.work.Plain
  refs : ∀ ref ∈ c.refs, ref.2.Plain
  origins : ∀ url origin, reach url = .ok origin → ∀ ref ∈ origin.refs, ref.2.Plain

variable {reach : Reach} {remote : String}

namespace Unruled

/-- A fetch brings no rules to commits that had none. -/
theorem fetched {remote : String} {fetched : Checkout} (h : c.Unruled reach)
    (hFetch : Fetches reach remote c fetched) : fetched.Unruled reach := by
  have hStrays : fetched.strays = c.strays := by rw [hFetch.rest]
  have hWork : fetched.work = c.work := by rw [hFetch.rest]
  refine ⟨fun content hContent => h.own content (hStrays ▸ hContent), hWork ▸ h.work, fun ref hRef => ?_,
    h.origins⟩
  rcases hFetch.sources ref hRef with hOld | ⟨url, origin, branch, -, hOrigin, -, hBranch⟩
  · exact h.refs ref hOld
  · exact h.origins url origin hOrigin (.branch branch, ref.2) hBranch

theorem headCommit? (h : c.Unruled reach) (hHead : c.head = .branch branch) (hTip : c.headCommit? = some tip) :
    tip.Plain := by
  rw [Repository.headCommit?, hHead] at hTip
  exact h.refs _ (Refs.mem_of_get? hTip)

/-- Without pending changes and conflicts an untracked file is beside the tracked ones. -/
theorem beside (h : c.Unruled reach) (hTip : c.headCommit? = some tip) (hPlain : tip.Plain)
    (hStatus : c.status = .ok report) (hPending : report.pending = 0) (hConflicts : c.index.conflicts = [])
    (hPresent : c.work.get? p = some content) (hUnstaged : c.index.staged.get? p = none) :
    Beside p content c := by
  have hTree : c.headTree = tip.tree := Repository.headTree_of_headCommit? hTip
  have hSettled : p ∉ c.index.conflicts := by simp [hConflicts]
  have hClean := staged_of_pending hStatus hPending hSettled
  exact ⟨hPresent, hUnstaged, hClean.1.symm.trans hUnstaged, h.own, h.work, hTree ▸ hPlain.tree⟩

end Unruled

/-- A pull destroys no work that is not committed, whether it succeeds or not. Without rules every file that
is not tracked stays as it is; and with changes to tracked files the checkout stays at its commit, with its
branches, its index and all its files. -/
theorem pull_keeps_uncommitted (h : c.Unruled reach) (committer : Option Person) (remote : String) :
    (∀ p content, c.work.get? p = some content → c.index.staged.get? p = none →
      (c.pull committer reach remote).2.work.get? p = some content) ∧
    ∀ report, c.status = .ok report → report.pending ≠ 0 →
      (c.pull committer reach remote).2.head = c.head ∧
      (∀ branch, (c.pull committer reach remote).2.refs.get? (.branch branch) = c.refs.get? (.branch branch)) ∧
      (c.pull committer reach remote).2.index = c.index ∧ (c.pull committer reach remote).2.work = c.work := by
  have hPulls := c.pulls committer reach remote
  generalize c.pull committer reach remote = result at hPulls ⊢
  constructor
  · intro p content hPresent hUnstaged
    cases hPulls with
    | unable => exact hPresent
    | unfetched hFetch => exact (congrArg work (fetches hFetch).rest) ▸ hPresent
    | alone hHead hFetch hNone => exact (congrArg work (fetches hFetch).rest) ▸ hPresent
    | @integrates branch fetched tip base result hHead hFetch hTip hBase hResult =>
        have hFetched := fetches hFetch
        have hRules := h.fetched hFetched
        have hHead : fetched.head = .branch branch := by rw [hFetched.rest, hHead]
        have hTipPlain := hRules.headCommit? hHead hTip
        have hBasePlain := hRules.refs _ (Refs.mem_of_get? hBase)
        have hPresent : fetched.work.get? p = some content := by rw [hFetched.rest, hPresent]
        have hUnstaged : fetched.index.staged.get? p = none := by rw [hFetched.rest, hUnstaged]
        -- files change only where the status let the integration go on
        cases hResult with
        | upToDate => exact hPresent
        | refused => exact hPresent
        | forwards hStatus hPending =>
            exact Beside.fastForward hPresent (hRules.beside hTip hTipPlain hStatus hPending · hPresent hUnstaged)
              hBasePlain (fetched.forwards branch base)
        | rebases hStatus hPending =>
            exact Beside.rebaseOnto hPresent (hRules.beside hTip hTipPlain hStatus hPending · hPresent hUnstaged)
              hTipPlain hBasePlain (fetched.rebases committer branch _ tip base)
  · intro report hReport hPending
    have hUntouched {fetched : Checkout} (hFetch : Fetches reach remote c fetched) :
        fetched.head = c.head ∧ (∀ branch, fetched.refs.get? (.branch branch) = c.refs.get? (.branch branch)) ∧
          fetched.index = c.index ∧ fetched.work = c.work := by
      have hRest := hFetch.rest
      exact ⟨by rw [hRest], hFetch.branch, by rw [hRest], by rw [hRest]⟩
    cases hPulls with
    | unable => exact ⟨rfl, fun _ => rfl, rfl, rfl⟩
    | unfetched hFetch => exact hUntouched (fetches hFetch)
    | alone hHead hFetch hNone => exact hUntouched (fetches hFetch)
    | @integrates branch fetched tip base result hHead hFetch hTip hBase hResult =>
        have hFetched := fetches hFetch
        have hReport : fetched.status = .ok report := hFetched.status.trans hReport
        cases hResult with
        | upToDate => exact hUntouched hFetched
        | refused => exact hUntouched hFetched
        | forwards hStatus hNothing =>
            obtain rfl := Except.ok.inj (hReport.symm.trans hStatus)
            exact absurd hNothing hPending
        | rebases hStatus hNothing =>
            obtain rfl := Except.ok.inj (hReport.symm.trans hStatus)
            exact absurd hNothing hPending

/-- A revision with a single file. -/
def noted (name content : String) : Revision :=
  ⟨⟨[([name], content.toUTF8)], List.pairwise_singleton _ _⟩, ⟨"k", "k"⟩, ⟨"k", "k"⟩, name⟩

/-- A clone in which the only file was changed, and another one made. -/
def edited : Checkout :=
  { Repository.init false with
    refs := [(.branch "master", .on none (noted "note" "1"))]
    remotes := [("origin", "o")]
    index := .ofTree (noted "note" "1").tree
    work := ⟨[(["draft"], "2".toUTF8), (["note"], "3".toUTF8)], by decide⟩ }

/-- The origin of the clone. It was given the new file as well, with other content. -/
def advanced : Repository :=
  { Repository.init true with
    refs := [(.branch "master", .on (some (.on none (noted "note" "1"))) (noted "draft" "4"))] }

theorem pull_keeps_uncommitted_edited :
    edited.Unruled (fun _ => .ok advanced) ∧ edited.status = .ok ⟨1, 0, 1⟩ ∧
      (edited.pull none (fun _ => .ok advanced) "origin").2.work.get? ["draft"] = some "2".toUTF8 ∧
      (edited.pull none (fun _ => .ok advanced) "origin").2.work = edited.work := by
  have hRules : edited.Unruled fun _ => .ok advanced := by
    have hFile (name content : String) (hName : name ≠ ".gitignore") : (noted name content).tree.Plain := by
      refine Tree.plain_of_paths ?_
      simp [noted, Tree.paths, hName]
    refine ⟨Repository.ruleless_of_strays rfl, Tree.plain_of_paths (by decide), ?_, ?_⟩
    · simp [edited, Commit.Plain, hFile]
    · simp [advanced, Commit.Plain, hFile]
  have hStatus : edited.status = .ok ⟨1, 0, 1⟩ := rfl
  obtain ⟨hBeside, hTracked⟩ := pull_keeps_uncommitted hRules none "origin"
  exact ⟨hRules, hStatus, hBeside _ _ rfl rfl, (hTracked _ hStatus (by decide)).2.2.2⟩

end Checkout

end VaultSync.Git
