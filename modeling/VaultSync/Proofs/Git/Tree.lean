import VaultSync.Git.Tree

/-! Trees as functions from paths to contents: when a tabulated tree is a given one, which trees can lie
on a disk, and the tree that two sides make of a base when no path was changed by both. -/
namespace VaultSync.Git

namespace TreePath

/-- A path is below a directory when the directory is a proper prefix of it. -/
theorem isBelow_iff {path dir : TreePath} :
    path.isBelow dir = true ↔ dir <+: path ∧ dir.length < path.length := by
  rw [isBelow, Bool.and_eq_true, List.isPrefixOf_iff_prefix, decide_eq_true_eq]

theorem isBelow_append_left (front path dir : TreePath) :
    isBelow (front ++ path) (front ++ dir) = path.isBelow dir := by
  rw [Bool.eq_iff_iff, isBelow_iff, isBelow_iff, List.prefix_append_right_inj, List.length_append,
    List.length_append, Nat.add_lt_add_iff_left]

theorem not_isBelow_self (path : TreePath) : path.isBelow path = false := by
  simp [isBelow]

end TreePath

namespace Tree

variable {tree base ours theirs : Tree}

/-- A tabulated tree is the one that has what was tabulated, when no path of it was left out. -/
theorem tabulate_eq {paths : List TreePath} {content : TreePath → Option ByteArray}
    (hPaths : ∀ p, tree.get? p ≠ none → p ∈ paths) (hContent : ∀ p ∈ paths, content p = tree.get? p) :
    tabulate paths content = tree := by
  refine ext_get? fun p => ?_
  rw [get?_tabulate]
  by_cases hMem : p ∈ paths
  · rw [if_pos hMem, hContent p hMem]
  · rw [if_neg hMem]
    exact Classical.byContradiction fun hNe => hMem (hPaths p (Ne.symm hNe))

/-- A tabulated tree has only paths that were looked at. -/
theorem mem_of_get?_tabulate {paths : List TreePath} {content : TreePath → Option ByteArray} {p : TreePath}
    (h : (tabulate paths content).get? p ≠ none) : p ∈ paths := by
  rw [get?_tabulate] at h
  exact Classical.byContradiction fun hMem => h (if_neg hMem)

/-- A file that is put stands at its path, and the others stay. -/
theorem get?_put (tree : Tree) (path p : TreePath) (content : ByteArray) :
    (tree.put path content).get? p = if p = path then some content else tree.get? p := by
  rw [put, get?_tabulate]
  split
  · rfl
  · rename_i hMem
    rw [List.mem_cons, not_or, mem_paths, Decidable.not_not] at hMem
    rw [if_neg hMem.1, hMem.2]

/-- A directory has something below it when a file lies there. -/
theorem hasBelow_iff {dir : TreePath} :
    tree.hasBelow dir = true ↔ ∃ path, tree.get? path ≠ none ∧ path.isBelow dir = true := by
  simp [hasBelow, mem_paths]

/-- No file lies below another one, as on a disk. -/
def Coherent (tree : Tree) : Prop :=
  ∀ path dir, tree.get? path ≠ none → tree.get? dir ≠ none → path.isBelow dir = false

/-- Coherence need only be checked on the paths of the tree. -/
theorem coherent_iff :
    tree.Coherent ↔ ∀ path ∈ tree.paths, ∀ dir ∈ tree.paths, path.isBelow dir = false := by
  simp only [Coherent, mem_paths]
  exact forall_congr' fun path => forall_comm

instance : Decidable tree.Coherent :=
  decidable_of_iff _ coherent_iff.symm

theorem Coherent.any_isBelow (h : tree.Coherent) {dir : TreePath} (hDir : tree.get? dir ≠ none)
    {paths : List TreePath} (hPaths : ∀ path ∈ paths, tree.get? path ≠ none) :
    paths.any (·.isBelow dir) = false := by
  rw [List.any_eq_false]
  intro path hPath
  rw [h path dir (hPaths path hPath) hDir]
  exact Bool.false_ne_true

theorem Coherent.hasBelow (h : tree.Coherent) {dir : TreePath} (hDir : tree.get? dir ≠ none) :
    tree.hasBelow dir = false :=
  h.any_isBelow hDir fun _ hPath => mem_paths.1 hPath

/-! ### Two sides of a base -/

/-- The base with the changes of both sides. Where both changed it, ours count. -/
def overlay (base ours theirs : Tree) : Tree :=
  tabulate (unionPaths [base, ours, theirs]) fun p =>
    if ours.get? p = base.get? p then theirs.get? p else ours.get? p

/-- An overlay takes each path from the side that changed it, ours first. -/
theorem get?_overlay (base ours theirs : Tree) (p : TreePath) :
    (overlay base ours theirs).get? p =
      if ours.get? p = base.get? p then theirs.get? p else ours.get? p := by
  rw [overlay, get?_tabulate]
  split
  · rfl
  · rename_i hAbsent
    have hNone : ∀ tree ∈ [base, ours, theirs], tree.get? p = none := fun tree hTree =>
      Classical.byContradiction fun hSome => hAbsent (mem_unionPaths.2 ⟨tree, hTree, hSome⟩)
    rw [hNone ours (by simp), hNone theirs (by simp), ite_self]

theorem overlay_of_ours_eq (base theirs : Tree) : overlay base base theirs = theirs :=
  ext_get? fun p => by rw [get?_overlay, if_pos rfl]

theorem overlay_of_theirs_eq (base ours : Tree) : overlay base ours base = ours := by
  refine ext_get? fun p => ?_
  rw [get?_overlay]
  split
  · rename_i hSame
    exact hSame.symm
  · rfl

/-- A path that theirs did not change has our content. -/
theorem get?_overlay_of_theirs_eq {p : TreePath} (h : theirs.get? p = base.get? p) :
    (overlay base ours theirs).get? p = ours.get? p := by
  rw [get?_overlay, h]
  split
  · rename_i hSame
    exact hSame.symm
  · rfl

end Tree

end VaultSync.Git
