import VaultSync.Proofs.Git.Merge
import VaultSync.Proofs.Git.Stands

/-! Pulling into a checkout without uncommitted changes. Its branch ends at the origin's commit, or on top
of it when the one commit that the origin does not have changed other paths than the origin did. -/
namespace VaultSync.Git

open Repository (originName Stands Serves)

namespace Checkout

variable {link : Link} {tip seen current base : Commit} {c : Checkout} {reach : Reach}
  {origin : Repository} {staged files : Tree}

/-! ### Fast-forward -/

/-- The switch of a checkout at rest to coherent files goes through, with these files staged and in the work
tree. -/
theorem switch_of_stands (h : c.Stands link tip seen staged) (hWork : c.work = staged)
    (hFiles : files.Coherent) :
    c.switch staged files = .done { c with work := files, index := .ofTree files } :=
  switch_of_clean hWork h.index (Repository.isLocked_eq_false h.strays _) hFiles

/-- A clean checkout at rest fast-forwards, and stands at the new tip. -/
theorem fastForward_of_clean (h : c.Stands link tip seen tip.tree) (hWork : c.work = tip.tree)
    (hBase : base.tree.Coherent) :
    ∃ c', c.fastForward link.branch base = (.ok .fastForward, c') ∧
      c'.Stands link base seen base.tree ∧ c'.work = base.tree := by
  have hStands := (h.with_index base.tree).with_tip base
  have hFree : Repository.isLocked c.toRepository ["HEAD"] = false :=
    Repository.isLocked_eq_false h.strays _
  have hPoint := (h.with_index base.tree).point_tip base
  refine ⟨{ c with
    work := base.tree, index := .ofTree base.tree, head := .branch link.branch,
    refs := c.refs.set (.branch link.branch) base }, ?_, { hStands with head := rfl }, rfl⟩
  rw [Repository.isLocked] at hFree
  rw [fastForward, h.headTree, switch_of_stands h hWork hBase]
  simp [within, hPoint, Repository.moveTo, Repository.isLocked, hFree]

/-! ### Rebase -/

variable (c) in
/-- A rebase that started from a checkout at rest ends with its branch at the commit that was reached. -/
theorem finishRebase_of_stands (h : c.Stands link tip seen staged) (commit : Commit)
    (rebase : Option StoppedRebase) :
    ({ c with head := .detached commit, rebase := rebase } : Checkout).finishRebase link.branch =
      (.ok .ok, { c with
        head := .branch link.branch, refs := c.refs.set (.branch link.branch) commit, rebase := none }) := by
  have hFree (path : TreePath) : Repository.isLocked c.toRepository path = false :=
    Repository.isLocked_eq_false h.strays path
  simp only [Repository.isLocked] at hFree
  simp [finishRebase, Repository.headCommit?, within, Repository.point, Repository.isLocked, hFree, h.clear,
    Repository.moveTo]

variable (c) in
/-- Replaying a commit whose changes the base did not touch makes both changes. A commit that changes
nothing there is left out. -/
theorem replay_of_disjoint (committer : Person) (onto : String) {commit parent : Commit}
    (hHead : c.head = .detached base) (hIndex : c.index = .ofTree base.tree) (hWork : c.work = base.tree)
    (hStrays : c.strays = .empty) (hParent : commit.parent? = some parent)
    (hDisjoint : ∀ p, base.tree.get? p = parent.tree.get? p ∨ commit.tree.get? p = parent.tree.get? p)
    (hCoherent : (Tree.overlay parent.tree base.tree commit.tree).Coherent) :
    ∃ new, replay committer onto c commit =
        .applied { c with head := .detached new, index := .ofTree new.tree, work := new.tree } ∧
      new.tree = Tree.overlay parent.tree base.tree commit.tree ∧
      (new = base ∨ ∃ revision, new = .on (some base) revision) := by
  have hHeadTree : c.headTree = base.tree := by rw [Repository.headTree, Repository.headCommit?, hHead]; rfl
  have hFree (path : TreePath) : c.isLocked path = false := Repository.isLocked_eq_false hStrays path
  have hRisk (paths : List TreePath) : paths.any c.isAtRisk = false := by
    rw [List.any_eq_false]
    intro path _
    rw [isAtRisk, standing_of_staged (by rw [hIndex, hWork]), hHeadTree, hWork, if_pos rfl]
    exact Bool.false_ne_true
  have hMerge := mergeTrees_of_disjoint ⟨onto, commit.revision.summary⟩ hDisjoint hCoherent
  have hSwitch := switch_of_clean hWork hIndex (hFree _) hCoherent
  have hParentTree : treeOf commit.parent? = parent.tree := by rw [hParent]; rfl
  -- a commit whose changes are all there already is left out, any other is recorded
  by_cases hSame : Tree.overlay parent.tree base.tree commit.tree = base.tree
  · refine ⟨base, ?_, hSame.symm, .inl rfl⟩
    rw [hSame] at hSwitch
    simp only [replay, hHeadTree, hParentTree, hMerge, hRisk, hSame, hSwitch, Bool.false_eq_true, if_false,
      List.isEmpty_nil, Bool.not_true, if_true]
    rw [← hHead]
  · refine ⟨.on (some base) { commit.revision with
      tree := Tree.overlay parent.tree base.tree commit.tree, committer }, ?_, rfl, .inr ⟨_, rfl⟩⟩
    have hUnlocked := hFree ["HEAD"]
    rw [Repository.isLocked] at hUnlocked
    simp only [replay, hHeadTree, hParentTree, hMerge, hRisk, hSwitch, Bool.false_eq_true, if_false,
      List.isEmpty_nil, Bool.not_true, hSame]
    simp [within, Repository.advance, hHead, Repository.moveTo, Repository.isLocked, hUnlocked,
      Repository.headCommit?]

/-- A clean checkout at rest can start a rebase onto any coherent commit. -/
theorem startRebase_of_clean (h : c.Stands link tip seen tip.tree) (hWork : c.work = tip.tree)
    (hBase : base.tree.Coherent) :
    c.startRebase link.branch tip base =
      (.ok (), { c with
        head := .detached base, rebase := some ⟨link.branch, tip⟩, index := .ofTree base.tree,
        work := base.tree }) := by
  have hConflicts : c.index.conflicts = [] := by rw [h.index, Index.ofTree]
  have hRebasing : Repository.isRebasing c.toRepository = false := by
    rw [Repository.isRebasing, Repository.hasStrayRebase, h.rebase, h.strays]
    rfl
  have hFree : Repository.isLocked c.toRepository ["HEAD"] = false :=
    Repository.isLocked_eq_false h.strays _
  rw [Repository.isLocked] at hFree
  rw [startRebase, hRebasing, hConflicts, h.headTree, switch_of_stands h hWork hBase]
  simp [within, Repository.moveTo, Repository.isLocked, hFree]

/-- A rebase of one commit onto a base that did not touch the paths of its change ends on the branch, with
both changes in the files. -/
theorem rebaseOnto_of_clean {parent : Commit} {revision : Revision} (h : c.Stands link tip seen tip.tree)
    (hWork : c.work = tip.tree) (hOn : tip = .on (some parent) revision)
    (hParent : parent.isAncestorOf base = true) (hTip : tip.isAncestorOf base = false)
    (hBase : base.tree.Coherent)
    (hDisjoint : ∀ p, base.tree.get? p = parent.tree.get? p ∨ tip.tree.get? p = parent.tree.get? p)
    (hCoherent : (Tree.overlay parent.tree base.tree tip.tree).Coherent) (committer : Person)
    (onto : String) :
    ∃ c' new, c.rebaseOnto (some committer) link.branch onto tip base = (.ok .ok, c') ∧
      c'.Stands link new seen new.tree ∧ c'.work = new.tree ∧
      new.tree = Tree.overlay parent.tree base.tree tip.tree ∧
      (new = base ∨ ∃ revision, new = .on (some base) revision) := by
  -- the detached checkout that the replay starts from, and the one that it ends in
  let started : Checkout := { c with
    head := .detached base, rebase := some ⟨link.branch, tip⟩, index := .ofTree base.tree,
    work := base.tree }
  have hAhead : tip.ahead base = [tip] := by
    subst hOn
    have hKnown := Commit.Chain.known (Commit.isAncestorOf_iff.1 hParent)
    exact (hKnown.next (Commit.isAncestorOf_eq_false_iff.1 hTip)).ahead
  obtain ⟨new, hReplay, hTree, hHistory⟩ := replay_of_disjoint started committer onto rfl rfl rfl h.strays
    (hOn ▸ Commit.parent?_on (some parent) revision) hDisjoint hCoherent
  let replayed : Checkout := { c with index := .ofTree new.tree, work := new.tree }
  have hReplayed : replayed.Stands link tip seen new.tree := h.with_index new.tree
  have hFinish := finishRebase_of_stands replayed hReplayed new (some ⟨link.branch, tip⟩)
  refine ⟨{ replayed with
    head := .branch link.branch, refs := c.refs.set (.branch link.branch) new, rebase := none }, new, ?_,
    { hReplayed.with_tip new with head := rfl, rebase := rfl }, rfl, hTree, hHistory⟩
  rw [rebaseOnto, startRebase_of_clean h hWork hBase, hAhead]
  simp only [replayAll]
  rw [hReplay]
  exact hFinish

/-! ### Pull -/

/-- Without anything left to record a pull only depends on where the two tips are. -/
theorem integrate_of_clean (h : c.Stands link tip seen tip.tree) (hWork : c.work = tip.tree)
    (committer : Option Person) (onto : String) (base : Commit) :
    c.integrate committer link.branch onto tip base =
      if base.isAncestorOf tip then (.ok .upToDate, c)
      else if tip.isAncestorOf base then c.fastForward link.branch base
      else c.rebaseOnto committer link.branch onto tip base := by
  have hHead : c.head ≠ .unreadable := by
    rw [h.head]
    exact Head.noConfusion
  have hIndex : c.index = .ofTree c.work := by rw [h.index, hWork]
  obtain ⟨report, hStatus, hPending⟩ := status_of_staged hHead hIndex
  have hNothing : report.pending = 0 := hPending.2 (by rw [h.headTree, hWork])
  simp [integrate, hStatus, hNothing]

/-- The pull of a checkout at rest is a fetch that leaves it at rest, then the integration of what was fetched.
-/
theorem pull_eq_integrate (h : c.Stands link tip seen staged) (hReach : reach link.url = .ok origin)
    (hServes : origin.Serves link base) (committer : Option Person) :
    ∃ fetched : Checkout, fetched.Stands link tip base staged ∧ fetched.work = c.work ∧
      c.pull committer reach originName =
        fetched.integrate committer link.branch (RefName.tracking originName link.branch).text tip base := by
  obtain ⟨repo, hFetch, hStands⟩ := fetch_of_stands h hReach hServes
  have hBranch : c.currentBranch = .ok link.branch := by
    rw [currentBranch, h.head]
    simp [h.headCommit?]
  refine ⟨{ c with toRepository := repo }, hStands, rfl, ?_⟩
  rw [pull, hBranch]
  simp only [hFetch, hStands.headCommit?, hStands.tracks]

/-- Without local commits a pull leads to the origin's commit. -/
theorem pull_of_behind (h : c.Stands link tip seen tip.tree) (hWork : c.work = tip.tree)
    (hReach : reach link.url = .ok origin) (hServes : origin.Serves link base)
    (hTip : tip.isAncestorOf base = true) (hBase : base.tree.Coherent) (committer : Option Person) :
    ∃ c' status, c.pull committer reach originName = (.ok status, c') ∧ status ≠ .stopped ∧
      c'.Stands link base base base.tree ∧ c'.work = base.tree := by
  obtain ⟨fetched, hStands, hFiles, hPull⟩ := pull_eq_integrate h hReach hServes committer
  have hClean : fetched.work = tip.tree := hFiles.trans hWork
  rw [hPull, integrate_of_clean hStands hClean]
  by_cases hSame : base.isAncestorOf tip = true
  · obtain rfl : base = tip := Commit.eq_of_isAncestorOf hSame hTip
    rw [if_pos hSame]
    exact ⟨_, _, rfl, by decide, hStands, hClean⟩
  · rw [if_neg hSame, if_pos hTip]
    obtain ⟨c', hForward, hStands', hWork'⟩ := fastForward_of_clean hStands hClean hBase
    exact ⟨c', _, hForward, by decide, hStands', hWork'⟩

/-- With one local commit a pull leads to the origin's commit with that commit's change on top. -/
theorem pull_of_ahead {parent : Commit} {revision : Revision} (h : c.Stands link tip seen tip.tree)
    (hWork : c.work = tip.tree) (hReach : reach link.url = .ok origin) (hServes : origin.Serves link base)
    (hOn : tip = .on (some parent) revision) (hParent : parent.isAncestorOf base = true)
    (hTip : tip.isAncestorOf base = false) (hBase : base.tree.Coherent)
    (hDisjoint : ∀ p, base.tree.get? p = parent.tree.get? p ∨ tip.tree.get? p = parent.tree.get? p)
    (hCoherent : (Tree.overlay parent.tree base.tree tip.tree).Coherent) (committer : Person) :
    ∃ c' status new, c.pull (some committer) reach originName = (.ok status, c') ∧ status ≠ .stopped ∧
      c'.Stands link new base new.tree ∧ c'.work = new.tree ∧
      new.tree = Tree.overlay parent.tree base.tree tip.tree ∧
      (new = base ∨ ∃ revision, new = .on (some base) revision) := by
  obtain ⟨fetched, hStands, hFiles, hPull⟩ := pull_eq_integrate h hReach hServes (some committer)
  have hClean : fetched.work = tip.tree := hFiles.trans hWork
  rw [hPull, integrate_of_clean hStands hClean]
  by_cases hBehind : base.isAncestorOf tip = true
  · obtain rfl : base = parent := by
      rw [hOn, Commit.isAncestorOf_iff, Commit.mem_ancestors_on, ← hOn] at hBehind
      rcases hBehind with hSame | hBehind
      · rw [hSame, Commit.isAncestorOf_refl] at hTip
        exact absurd hTip (by decide)
      · exact Commit.eq_of_isAncestorOf (Commit.isAncestorOf_iff.2 hBehind) hParent
    rw [if_pos hBehind]
    exact ⟨_, _, tip, rfl, by decide, hStands, hClean, by rw [Tree.overlay_of_ours_eq],
      .inr ⟨_, hOn⟩⟩
  · rw [if_neg hBehind, if_neg (by rw [hTip]; exact Bool.false_ne_true)]
    obtain ⟨c', new, hRebase, hStands', hWork', hTree, hHistory⟩ :=
      rebaseOnto_of_clean hStands hClean hOn hParent hTip hBase hDisjoint hCoherent committer _
    exact ⟨c', _, new, hRebase, by decide, hStands', hWork', hTree, hHistory⟩

end Checkout

end VaultSync.Git
