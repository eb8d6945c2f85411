import VaultSync.Git.Switch
import VaultSync.Proofs.Git.Tree

/-! What the steps that a checkout is changed by can do to it: writing the index, moving, pointing a branch
somewhere, and a careful switch from one tree to another. -/
namespace VaultSync.Git

namespace Repository

variable {repo repo' : Repository}

theorem point_eq_some_iff {name : RefName} {commit : Commit} : repo.point name commit = some repo' ↔
    repo.isLocked name.path = false ∧ repo.refs.clashes name = false ∧
      repo' = { repo with refs := repo.refs.set name commit } := by
  rw [point, Option.ite_none_left_eq_some, Bool.not_eq_true, Bool.or_eq_false_iff, Option.some.injEq,
    and_assoc, eq_comm (a := repo')]

theorem moveTo_eq_some_iff {head : Head} :
    repo.moveTo head = some repo' ↔ repo.isLocked ["HEAD"] = false ∧ repo' = { repo with head } := by
  rw [moveTo, Option.ite_none_left_eq_some, Bool.not_eq_true, Option.some.injEq, eq_comm (a := repo')]

theorem writeIndex_eq_some_iff {index : Index} :
    repo.writeIndex index = some repo' ↔ repo.isLocked ["index"] = false ∧ repo' = { repo with index } := by
  rw [writeIndex, Option.ite_none_left_eq_some, Bool.not_eq_true, Option.some.injEq, eq_comm (a := repo')]

theorem point_eq_none_iff {name : RefName} {commit : Commit} : repo.point name commit = none ↔
    repo.isLocked name.path = true ∨ repo.refs.clashes name = true := by
  rw [point, ← Bool.or_eq_true, ite_eq_left_iff, imp_iff_not (Option.some_ne_none _),
    Decidable.not_not]

theorem moveTo_eq_none_iff {head : Head} : repo.moveTo head = none ↔ repo.isLocked ["HEAD"] = true := by
  simp [moveTo]

theorem writeIndex_eq_none_iff {index : Index} :
    repo.writeIndex index = none ↔ repo.isLocked ["index"] = true := by
  simp [writeIndex]

theorem headCommit?_of_branch {branch : String} {tip : Commit} (hHead : repo.head = .branch branch)
    (hTip : repo.refs.get? (.branch branch) = some tip) : repo.headCommit? = some tip := by
  rw [headCommit?, hHead]
  exact hTip

theorem headTree_of_headCommit? {tip : Commit} (h : repo.headCommit? = some tip) :
    repo.headTree = tip.tree := by
  rw [headTree, h]
  rfl

/-- Advancing changes where the repository stands, and where the branch points that it is on. -/
theorem advance_eq_some {commit : Commit} (h : repo.advance commit = some repo') :
    repo' = { repo with head := repo'.head, refs := repo'.refs } ∧ repo'.headCommit? = some commit := by
  rw [advance] at h
  split at h
  · rename_i name hHead
    obtain ⟨-, -, rfl⟩ := point_eq_some_iff.1 h
    exact ⟨rfl, by simp [headCommit?, hHead, Refs.get?_set]⟩
  · obtain ⟨-, rfl⟩ := moveTo_eq_some_iff.1 h
    exact ⟨rfl, rfl⟩
  · cases h

end Repository

namespace Checkout

variable {c c' : Checkout} {source target : Tree} {path p : TreePath}

/-- A change of the repository within a checkout leaves the work tree. -/
theorem within_eq_some_iff {change : Repository → Option Repository} : c.within change = some c' ↔
    ∃ repo, change c.toRepository = some repo ∧ c' = { c with toRepository := repo } := by
  simp only [within, Option.map_eq_some_iff, eq_comm (a := c')]

theorem within_eq_none_iff {change : Repository → Option Repository} :
    c.within change = none ↔ change c.toRepository = none := by
  rw [within, Option.map_eq_none_iff]

/-! ### Switching -/

/-- How a careful switch ends. One that breaks off leaves each path as it has to become, or taken away if
the target does not have it. -/
inductive Switches (c : Checkout) (source target : Tree) : Switched → Prop
  | inWay : Switches c source target .inWay
  | broken {work : Tree} (hConflicts : c.index.conflicts = [])
      (hSafe : ∀ p, c.isInWay source target p = false)
      (hWork : ∀ p, work.get? p = c.afterSwitch source target p ∨
        work.get? p = c.afterRemoval source target p) :
      Switches c source target (.broken { c with work })
  | done {work staged : Tree} (hConflicts : c.index.conflicts = []) (hFree : c.isLocked ["index"] = false)
      (hSafe : ∀ p, c.isInWay source target p = false)
      (hWork : ∀ p, work.get? p = c.afterSwitch source target p)
      (hStaged : ∀ p, staged.get? p =
        if source.get? p = target.get? p then c.index.staged.get? p else target.get? p) :
      Switches c source target (.done { c with work, index := .ofTree staged })

/-- A switch that happens changes the files and the index, and nothing else. -/
theorem Switches.rest (h : Switches c source target (.done c')) :
    c' = { c with work := c'.work, index := c'.index } := by
  cases h
  rfl

/-- A switch that touches files starts where no conflict is open. -/
theorem Switches.settled {switched : Switched} (h : Switches c source target switched)
    (hTouched : switched ≠ .inWay) : c.index.conflicts = [] := by
  cases h with
  | inWay => exact absurd rfl hTouched
  | broken hConflicts => exact hConflicts
  | done hConflicts => exact hConflicts

/-- The paths that a switch looks at: no other path has anything before or after it. -/
def switchPaths (c : Checkout) (source target : Tree) : List TreePath :=
  Tree.unionPaths [source, target, c.work, c.index.staged]

/-- Off the paths of a switch there is no file on either side, in the work tree or staged. -/
theorem eq_none_of_notMem_switchPaths (h : p ∉ c.switchPaths source target) :
    source.get? p = none ∧ target.get? p = none ∧ c.work.get? p = none ∧ c.index.staged.get? p = none := by
  have hNone : ∀ tree ∈ [source, target, c.work, c.index.staged], tree.get? p = none := fun tree hTree =>
    Classical.byContradiction fun hSome => h (Tree.mem_unionPaths.2 ⟨tree, hTree, hSome⟩)
  simpa using hNone

theorem isInWay_of_notMem (h : p ∉ c.switchPaths source target) : c.isInWay source target p = false := by
  obtain ⟨hSource, hTarget, hWork, -⟩ := eq_none_of_notMem_switchPaths h
  simp [isInWay, hSource, hTarget]

theorem afterSwitch_of_notMem (h : p ∉ c.switchPaths source target) :
    c.afterSwitch source target p = none := by
  obtain ⟨hSource, hTarget, hWork, -⟩ := eq_none_of_notMem_switchPaths h
  simp [afterSwitch, hSource, hTarget, hWork]

theorem afterRemoval_of_notMem (h : p ∉ c.switchPaths source target) :
    c.afterRemoval source target p = none := by
  obtain ⟨hSource, -, hWork, -⟩ := eq_none_of_notMem_switchPaths h
  simp [afterRemoval, hSource, hWork]

/-- A table over the paths of a switch reads as its function, which is empty elsewhere. -/
theorem get?_tabulate_switchPaths {content : TreePath → Option ByteArray}
    (h : p ∉ c.switchPaths source target → content p = none) :
    (Tree.tabulate (c.switchPaths source target) content).get? p = content p := by
  rw [Tree.get?_tabulate]
  split
  · rfl
  · rename_i hMem
    exact (h hMem).symm

variable (c source target) in
/-- Each run of `switch` ends in one of the ways of `Switches`. -/
theorem switches : Switches c source target (c.switch source target) := by
  rw [switch, ← switchPaths]
  by_cases hRefused : (!c.index.conflicts.isEmpty ||
      (c.switchPaths source target).any (c.isInWay source target)) = true
  · rw [if_pos hRefused]
    exact .inWay
  · rw [if_neg hRefused]
    rw [Bool.or_eq_true, not_or, Bool.not_eq_true', Bool.not_eq_false, List.isEmpty_iff,
      List.any_eq_true] at hRefused
    obtain ⟨hConflicts, hSafe⟩ := hRefused
    -- off the paths of the switch there is no file to be in the way
    have hSafe (p : TreePath) : c.isInWay source target p = false := by
      by_cases hMem : p ∈ c.switchPaths source target
      · exact Bool.eq_false_iff.2 fun hInWay => hSafe ⟨p, hMem, hInWay⟩
      · exact isInWay_of_notMem hMem
    have hWork (p : TreePath) : (Tree.tabulate (c.switchPaths source target)
        (c.afterSwitch source target)).get? p = c.afterSwitch source target p :=
      get?_tabulate_switchPaths afterSwitch_of_notMem
    cases hObstacle : c.obstacle? source target (c.switchPaths source target) with
    | some path =>
        refine .broken hConflicts hSafe fun p => ?_
        rw [get?_tabulate_switchPaths]
        · split
          · exact .inl rfl
          · exact .inr rfl
        · intro hMem
          rw [afterSwitch_of_notMem hMem, afterRemoval_of_notMem hMem, ite_self]
    | none =>
        simp only
        split
        · rename_i c' hWrite
          obtain ⟨repo, hRepo, rfl⟩ := within_eq_some_iff.1 hWrite
          obtain ⟨hFree, rfl⟩ := Repository.writeIndex_eq_some_iff.1 hRepo
          refine .done hConflicts hFree hSafe hWork fun p => get?_tabulate_switchPaths fun hMem => ?_
          obtain ⟨hSource, hTarget, -, hStaged⟩ := eq_none_of_notMem_switchPaths hMem
          rw [hTarget, hStaged, ite_self]
        · exact .broken hConflicts hSafe fun p => .inl (hWork p)

end Checkout

end VaultSync.Git
