import VaultSync.Git.Merge
import VaultSync.Proofs.Git.Tree

/-! Merges of changes to different paths. No path is then in conflict and no file that one side moved was
changed by the other, so a merge is the base with the changes of both sides. -/
namespace VaultSync.Git

/-- A move that is matched leads from a path that is gone to one that is new. -/
theorem mem_matchMoves {base side : Tree} {gone new : List TreePath} {move : Move}
    (h : move ∈ matchMoves base side gone new) : move.source ∈ gone ∧ move.target ∈ new := by
  induction new generalizing gone with
  | nil => cases gone <;> simp [matchMoves] at h
  | cons target new ih =>
      rw [matchMoves] at h
      split at h
      · rename_i source hFound
        rcases List.mem_cons.1 h with rfl | h
        · exact ⟨List.mem_of_find?_eq_some hFound, List.mem_cons_self⟩
        · obtain ⟨hSource, hTarget⟩ := ih h
          exact ⟨List.mem_of_mem_erase hSource, List.mem_cons_of_mem _ hTarget⟩
      · obtain ⟨hSource, hTarget⟩ := ih h
        exact ⟨hSource, List.mem_cons_of_mem _ hTarget⟩

/-- A file that was moved is gone from where it was, and new where it is. -/
theorem mem_moves {base side : Tree} {move : Move} (h : move ∈ moves base side) :
    (base.get? move.source ≠ none ∧ side.get? move.source = none) ∧
      side.get? move.target ≠ none ∧ base.get? move.target = none := by
  obtain ⟨hSource, hTarget⟩ := mem_matchMoves h
  rw [List.mem_filter, Tree.mem_paths, Option.isNone_iff_eq_none] at hSource hTarget
  exact ⟨hSource, hTarget⟩

/-- A move matters only if the file was changed on the other side as well. -/
theorem filter_moves_eq_nil {base ours theirs : Tree}
    (h : ∀ p, ours.get? p = base.get? p ∨ theirs.get? p = base.get? p) :
    (moves base ours).filter (·.matters base theirs) = [] := by
  rw [List.filter_eq_nil_iff]
  intro move hMove hMatters
  obtain ⟨⟨hBase, hOurs⟩, -⟩ := mem_moves hMove
  rcases h move.source with hSame | hSame
  · exact hBase (hSame.symm.trans hOurs)
  · simp [Move.matters, hSame] at hMatters

/-- A path of a merge is a path of one of the merged trees: nothing is moved to where no side has a file. -/
theorem get?_settled_mergeTrees {labels : MergeLabels} {base ours theirs : Tree} {p : TreePath}
    (h : (mergeTrees labels base ours theirs).settled.get? p ≠ none) :
    ∃ tree ∈ [base, ours, theirs], tree.get? p ≠ none := by
  let ourMoves := ((moves base ours).filter (·.matters base theirs)).filter fun move =>
    (theirs.get? move.source).isSome
  let theirMoves := ((moves base theirs).filter (·.matters base ours)).filter fun move =>
    (ours.get? move.source).isSome
  let followed := ourMoves ++ theirMoves
  obtain ⟨tree, hTree, hSome⟩ : ∃ tree ∈ [base.follow followed, ours.follow followed, theirs.follow followed],
      tree.get? p ≠ none := Tree.mem_unionPaths.1 (Tree.mem_of_get?_tabulate h)
  obtain ⟨origin, hOrigin, rfl⟩ : ∃ origin ∈ [base, ours, theirs], tree = origin.follow followed := by
    simpa using hTree
  rcases List.mem_append.1 (Tree.mem_of_get?_tabulate hSome) with hPath | hTarget
  · exact ⟨origin, hOrigin, Tree.mem_paths.1 hPath⟩
  · obtain ⟨move, hMove, rfl⟩ := List.mem_map.1 hTarget
    rcases List.mem_append.1 hMove with hOurs | hTheirs
    · have hMove := (List.mem_filter.1 (List.mem_filter.1 hOurs).1).1
      exact ⟨ours, by simp, (mem_moves hMove).2.1⟩
    · have hMove := (List.mem_filter.1 (List.mem_filter.1 hTheirs).1).1
      exact ⟨theirs, by simp, (mem_moves hMove).2.1⟩

theorem Tree.follow_nil (tree : Tree) : tree.follow [] = tree :=
  tabulate_eq (fun p hp => by simpa [mem_paths] using hp) fun p _ => by simp

/-- A path that only one side changed settles for that side. -/
theorem mergePath_of_eq_base {base ours theirs : Option ByteArray} (ourLabel theirLabel : String)
    (h : ours = base ∨ theirs = base) :
    mergePath ourLabel theirLabel base ours theirs = .settled (if ours = base then theirs else ours) := by
  unfold mergePath
  by_cases hAgree : ours = theirs
  · rw [if_pos hAgree, hAgree, ite_self]
  · by_cases hOurs : ours = base
    · rw [if_neg hAgree, if_pos hOurs, if_pos hOurs]
    · rw [if_neg hAgree, if_neg hOurs, if_neg hOurs, if_pos (h.resolve_left hOurs)]

/-- Without conflicts at single paths a merge is clean when its files can lie on a disk together. -/
theorem mergePaths_of_disjoint (labels : MergeLabels) {base ours theirs : Tree}
    (h : ∀ p, ours.get? p = base.get? p ∨ theirs.get? p = base.get? p)
    (hCoherent : (Tree.overlay base ours theirs).Coherent) :
    mergePaths labels [] base ours theirs = ⟨Tree.overlay base ours theirs, []⟩ := by
  have hMerged (p : TreePath) :
      mergePath labels.ours labels.theirs (base.get? p) (ours.get? p) (theirs.get? p) =
        .settled ((Tree.overlay base ours theirs).get? p) := by
    rw [mergePath_of_eq_base _ _ (h p), Tree.get?_overlay]
  have hPresent {paths : List TreePath} {p : TreePath}
      (hp : p ∈ paths.filter fun p =>
        decide (PathMerge.settled ((Tree.overlay base ours theirs).get? p) ≠ .settled none)) :
      (Tree.overlay base ours theirs).get? p ≠ none := by
    simpa using (List.mem_filter.1 hp).2
  simp only [mergePaths, hMerged, List.any_nil, Bool.or_false, Bool.false_or, TreeMerge.mk.injEq]
  constructor
  · refine Tree.tabulate_eq (fun p hp => ?_) fun p _ => ?_
    · rw [Tree.get?_overlay] at hp
      rw [Tree.mem_unionPaths]
      split at hp
      · exact ⟨theirs, by simp, hp⟩
      · exact ⟨ours, by simp, hp⟩
    -- the overlay is coherent, so no merged file has to give way to a directory
    · by_cases hNone : (Tree.overlay base ours theirs).get? p = none
      · rw [hNone, ite_self]
      · rw [hCoherent.any_isBelow hNone fun q hq => hPresent hq, if_neg Bool.false_ne_true]
  · rw [List.filterMap_eq_nil_iff]
    intro p hp
    rw [hCoherent.any_isBelow (hPresent hp) fun q hq => hPresent hq, Bool.false_and,
      if_neg Bool.false_ne_true]

/-- When no path was changed by both sides a merge makes both changes and leaves no conflict. -/
theorem mergeTrees_of_disjoint (labels : MergeLabels) {base ours theirs : Tree}
    (h : ∀ p, ours.get? p = base.get? p ∨ theirs.get? p = base.get? p)
    (hCoherent : (Tree.overlay base ours theirs).Coherent) :
    mergeTrees labels base ours theirs = ⟨Tree.overlay base ours theirs, []⟩ := by
  have hOurs := filter_moves_eq_nil h
  have hTheirs := filter_moves_eq_nil fun p => (h p).symm
  simp only [mergeTrees, hOurs, hTheirs, List.filter_nil, List.append_nil, Tree.follow_nil]
  exact mergePaths_of_disjoint labels h hCoherent

end VaultSync.Git
