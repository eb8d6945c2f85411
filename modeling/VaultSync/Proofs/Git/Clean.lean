import VaultSync.Git.Switch
import VaultSync.Proofs.Git.Tree

/-! Checkouts with nothing left to stage. There a status compares the last commit with the files, and a
careful switch from the files to another tree loses nothing, so it always happens. -/
namespace VaultSync.Git

/-- No rule leaves a file out. -/
def Tree.Ruleless (tree : Tree) : Prop :=
  ∀ base content, tree.get? (base ++ [".gitignore"]) = some content → Ignore.readRules base content = []

/-- No rule of the repository's own leaves a file out. -/
def Repository.Ruleless (repo : Repository) : Prop :=
  ∀ content, repo.strays.get? ["info", "exclude"] = some content → Ignore.readRules [] content = []

/-- A repository without stray files has no rules of its own. -/
theorem Repository.ruleless_of_strays {repo : Repository} (h : repo.strays = .empty) : repo.Ruleless := by
  simp [Repository.Ruleless, h]

namespace Checkout

variable {c c' : Checkout}

/-! ### Ignored files -/

/-- Which paths are ignored depends on the files with rules only. -/
theorem isIgnored_congr
    (hRules : ∀ base, c'.work.get? (base ++ [".gitignore"]) = c.work.get? (base ++ [".gitignore"]))
    (hOwn : c'.strays.get? ["info", "exclude"] = c.strays.get? ["info", "exclude"]) (path : TreePath) :
    Ignore.isIgnored c' path = Ignore.isIgnored c path := by
  have hSame (path : TreePath) : Ignore.rulesFor c' path = Ignore.rulesFor c path := by
    simp only [Ignore.rulesFor, hRules, hOwn]
  have hLeaves (path : TreePath) (isDirectory : Bool) :
      Ignore.leavesOut c' path isDirectory = Ignore.leavesOut c path isDirectory := by
    rw [Ignore.leavesOut, Ignore.leavesOut, hSame]
  simp only [Ignore.isIgnored, hLeaves]

/-- Without a file of rules no rule is in force at any path. -/
theorem rulesFor_eq_nil (hOwn : c.Ruleless) (hRules : c.work.Ruleless) (path : TreePath) :
    Ignore.rulesFor c path = [] := by
  rw [Ignore.rulesFor, List.append_eq_nil_iff, List.flatMap_eq_nil_iff]
  constructor
  · intro base _
    cases hContent : c.work.get? (base ++ [".gitignore"]) with
    | none => rfl
    | some content => exact hRules base content hContent
  · cases hContent : c.strays.get? ["info", "exclude"] with
    | none => rfl
    | some content => exact hOwn content hContent

/-- Without rules no file is ignored. -/
theorem isIgnored_eq_false (hOwn : c.Ruleless) (hRules : c.work.Ruleless) (path : TreePath) :
    Ignore.isIgnored c path = false := by
  have hLeaves (path : TreePath) (isDirectory : Bool) : Ignore.leavesOut c path isDirectory = false := by
    rw [Ignore.leavesOut, rulesFor_eq_nil hOwn hRules]
    rfl
  simp [Ignore.isIgnored, hLeaves]

/-! ### Status -/

/-- A standing that is counted zero times is the standing of no path. -/
theorem count_eq_zero_iff {standing : Standing} :
    c.count standing = 0 ↔ ∀ path ∈ c.paths, c.standing path ≠ standing := by
  rw [count, List.length_eq_zero_iff, List.filter_eq_nil_iff]
  simp only [decide_eq_true_iff, ne_eq]

/-- A path that neither the last commit nor the index nor the work tree has. -/
theorem standing_of_notMem_paths {path : TreePath} (h : path ∉ c.paths) :
    c.standing path = .same ∨ c.standing path = .conflicted := by
  have hNone : ∀ tree ∈ [c.headTree, c.index.staged, c.work], tree.get? path = none :=
    fun tree hTree => Classical.byContradiction fun hSome => h (Tree.mem_unionPaths.2 ⟨tree, hTree, hSome⟩)
  rw [standing, hNone c.headTree (by simp), hNone c.index.staged (by simp), hNone c.work (by simp)]
  split
  · exact .inr rfl
  · exact .inl rfl

/-- Off the paths that are looked at every path stands the same, so a zero count speaks of all paths. -/
theorem standing_ne_of_count {standing : Standing} (hKind : standing ≠ .same ∧ standing ≠ .conflicted)
    (h : c.count standing = 0) (path : TreePath) : c.standing path ≠ standing := by
  by_cases hPath : path ∈ c.paths
  · exact count_eq_zero_iff.1 h path hPath
  · rcases standing_of_notMem_paths hPath with hSame | hConflicted
    · exact fun hEq => hKind.1 (hEq.symm.trans hSame)
    · exact fun hEq => hKind.2 (hEq.symm.trans hConflicted)

theorem status_eq_ok {report : StatusReport} (h : c.status = .ok report) :
    report = ⟨c.count .changed, c.count .missing, c.count .untracked⟩ := by
  rw [status] at h
  split at h
  · cases h
  · exact (Except.ok.inj h).symm

/-- Without pending changes the index and the files have what the last commit has, except where paths are in
conflict. -/
theorem staged_of_pending {report : StatusReport} (hStatus : c.status = .ok report)
    (hPending : report.pending = 0) {path : TreePath} (hPath : path ∉ c.index.conflicts) :
    c.index.staged.get? path = c.headTree.get? path ∧
      ∀ content, c.headTree.get? path = some content → c.work.get? path = some content := by
  obtain rfl := status_eq_ok hStatus
  obtain ⟨hChanged, hMissing⟩ := Nat.add_eq_zero_iff.1 hPending
  have hChanged := standing_ne_of_count (by decide) hChanged path
  have hMissing := standing_ne_of_count (by decide) hMissing path
  have hSettled : c.index.conflicts.contains path = false := by simpa using hPath
  rw [standing, hSettled] at hChanged hMissing
  cases hHead : c.headTree.get? path <;> cases hStaged : c.index.staged.get? path <;>
    cases hWork : c.work.get? path <;> simp_all

/-- Where everything is staged, a path is the same as in `HEAD` or changed. -/
theorem standing_of_staged (h : c.index = .ofTree c.work) (path : TreePath) :
    c.standing path = if c.headTree.get? path = c.work.get? path then .same else .changed := by
  have hStaged : c.index.staged = c.work := by rw [h, Index.ofTree]
  have hConflicts : c.index.conflicts = [] := by rw [h, Index.ofTree]
  rw [standing, hConflicts, hStaged]
  cases hHead : c.headTree.get? path <;> cases hWork : c.work.get? path <;> simp

/-- With files that hold what is in the index a path has something to record unless it is as in the last
commit. -/
theorem standing_of_held {target : Tree} (hIndex : c.index = .ofTree target)
    (hHeld : ∀ path content, target.get? path = some content → c.work.get? path = some content)
    (path : TreePath) :
    (c.standing path ≠ .changed ∧ c.standing path ≠ .missing) ↔
      c.headTree.get? path = target.get? path := by
  have hConflicts : c.index.conflicts = [] := by rw [hIndex, Index.ofTree]
  have hStaged : c.index.staged = target := by rw [hIndex, Index.ofTree]
  rw [standing, hConflicts, hStaged]
  cases hTarget : target.get? path with
  | some content =>
      rw [hHeld path content hTarget]
      by_cases hSame : c.headTree.get? path = some content <;> simp [hSame]
  | none =>
      cases hCommitted : c.headTree.get? path with
      | some committed => cases c.work.get? path <;> simp
      | none =>
          cases c.work.get? path with
          | none => simp
          | some content => by_cases hIgnored : Ignore.isIgnored c path = true <;> simp [hIgnored]

/-- With files that hold what is in the index a status sees something to record exactly when that is not
the tree of the last commit. -/
theorem status_of_held {target : Tree} (hHead : c.head ≠ .unreadable) (hIndex : c.index = .ofTree target)
    (hHeld : ∀ path content, target.get? path = some content → c.work.get? path = some content) :
    ∃ report, c.status = .ok report ∧ (report.pending = 0 ↔ c.headTree = target) := by
  refine ⟨_, by rw [status, if_neg hHead], ?_⟩
  rw [StatusReport.pending, Nat.add_eq_zero_iff]
  constructor
  · rintro ⟨hChanged, hMissing⟩
    refine Tree.ext_get? fun path => (standing_of_held hIndex hHeld path).1 ⟨?_, ?_⟩
    · exact standing_ne_of_count (by decide) hChanged path
    · exact standing_ne_of_count (by decide) hMissing path
  · intro hSame
    have hSettled (path : TreePath) := (standing_of_held hIndex hHeld path).2 (congrArg (·.get? path) hSame)
    exact ⟨count_eq_zero_iff.2 fun path _ => (hSettled path).1,
      count_eq_zero_iff.2 fun path _ => (hSettled path).2⟩

/-- With everything staged a status sees something to record exactly when the files are not those of the
last commit. -/
theorem status_of_staged (hHead : c.head ≠ .unreadable) (h : c.index = .ofTree c.work) :
    ∃ report, c.status = .ok report ∧ (report.pending = 0 ↔ c.headTree = c.work) :=
  status_of_held hHead h fun _ _ hContent => hContent

/-! ### Switching -/

variable {source target : Tree}

/-- A work tree that is the source of a switch holds nothing in its way. -/
theorem isInWay_eq_false (hWork : c.work = source) (path : TreePath) :
    c.isInWay source target path = false := by
  subst hWork
  unfold isInWay
  split
  · rename_i hWork _ hContent
    rw [hWork] at hContent
    obtain rfl := Option.some.inj hContent
    simp
  · rename_i hWork _ hNone
    rw [hWork] at hNone
    simp at hNone
  · rename_i hNone _ hContent
    rw [hNone] at hContent
    simp at hContent
  -- what must go from below the path would have to be missing from the work tree it is in
  · have hKept : (c.work.paths.any fun q => path.isBelow q && (c.work.get? q).isNone) = false := by
      rw [List.any_eq_false]
      intro q hq
      have hSome := Tree.mem_paths.1 hq
      simp [hSome]
    rw [hKept]
    simp
  · rename_i hWork _ hContent
    rw [hWork] at hContent
    obtain rfl := Option.some.inj hContent
    simp
  · rfl

/-- A switch from the work tree to coherent files meets no obstacle. -/
theorem obstacle?_eq_none (hWork : c.work = source) (hTarget : target.Coherent) (paths : List TreePath) :
    c.obstacle? source target paths = none := by
  rw [obstacle?, List.find?_eq_none]
  intro path _ hObstacle
  simp only [Bool.and_eq_true, Option.isSome_iff_ne_none] at hObstacle
  obtain ⟨⟨-, hPath⟩, hBelow⟩ := hObstacle
  obtain ⟨q, hq, hBelow⟩ := Tree.hasBelow_iff.1 hBelow
  rw [Tree.get?_tabulate] at hq
  -- what is left after the removal is in the target, where it cannot lie below another file
  have hLeft : target.get? q ≠ none := by
    intro hNone
    rw [afterRemoval, hNone, hWork] at hq
    cases hSource : source.get? q <;> simp [hSource] at hq
  rw [hTarget q path hLeft hPath] at hBelow
  exact absurd hBelow (by decide)

/-- From files that are those of the source a switch leads to the target, for the files and the index. -/
theorem switch_of_clean (hWork : c.work = source) (hIndex : c.index = .ofTree source)
    (hFree : c.isLocked ["index"] = false) (hTarget : target.Coherent) :
    c.switch source target = .done { c with work := target, index := .ofTree target } := by
  have hStaged : c.index.staged = source := by rw [hIndex, Index.ofTree]
  have hConflicts : c.index.conflicts = [] := by rw [hIndex, Index.ofTree]
  have hPaths (p : TreePath) (hp : target.get? p ≠ none) :
      p ∈ Tree.unionPaths [source, target, c.work, c.index.staged] :=
    Tree.mem_unionPaths.2 ⟨target, by simp, hp⟩
  have hFiles : Tree.tabulate (Tree.unionPaths [source, target, c.work, c.index.staged])
      (c.afterSwitch source target) = target := by
    refine Tree.tabulate_eq hPaths fun p _ => ?_
    rw [afterSwitch, hWork]
    split
    · rename_i hSame
      exact hSame
    · rfl
  have hNewIndex : (Tree.tabulate (Tree.unionPaths [source, target, c.work, c.index.staged]) fun p =>
      if source.get? p = target.get? p then c.index.staged.get? p else target.get? p) = target := by
    refine Tree.tabulate_eq hPaths fun p _ => ?_
    rw [hStaged]
    split
    · rename_i hSame
      exact hSame
    · rfl
  -- nothing is in the way, and nothing is in place of a directory, so the switch reaches its last step
  have hInWay : (Tree.unionPaths [source, target, c.work, c.index.staged]).any
      (c.isInWay source target) = false := by
    rw [List.any_eq_false]
    intro p _
    rw [isInWay_eq_false hWork]
    exact Bool.false_ne_true
  have hWrite (work : Tree) (index : Index) :
      { c with work := work }.within (·.writeIndex index) = some { c with work := work, index := index } := by
    rw [within, Repository.writeIndex]
    simp only [hFree, Bool.false_eq_true, if_false, Option.map_some]
  simp only [switch, hConflicts, hInWay, obstacle?_eq_none hWork hTarget, hFiles, hNewIndex, hWrite]
  rfl

end Checkout

end VaultSync.Git
