import VaultSync.Proofs.Git.Stands

/-! Clones of a repository. A clone of a bare repository that stands on a branch follows that branch, and has
seen every branch where it is. -/
namespace VaultSync.Git

/-- A bare repository that stands on a branch, as others can clone it. A tree on the branch has no file in
the place of a directory, and no rules. -/
structure Repository.Offers (branch : String) (tip : Commit) (origin : Repository) : Prop where
  bare : origin.bare = true
  head : origin.head = .branch branch
  points : origin.refs.get? (.branch branch) = some tip
  once : (origin.refs.map (·.1)).Nodup
  clear : origin.refs.clashes (.branch branch) = false
  free : origin.isLocked (RefName.branch branch).path = false
  coherent : tip.tree.Coherent
  ruleless : tip.tree.Ruleless

/-- The link between an origin and its clones. -/
def Repository.link (origin : Repository) (url branch : String) : Link :=
  ⟨url, branch, fun name => origin.refs.get? (.branch name)⟩

namespace Repository.Offers

variable {branch : String} {tip : Commit} {origin : Repository}

theorem serves (h : origin.Offers branch tip) (url : String) : origin.Serves (origin.link url branch) tip where
  bare := h.bare
  points := h.points
  only _ hMem := Option.some.inj ((Refs.get?_of_mem h.once hMem).symm.trans h.points)
  others _ _ _ hMem := Refs.get?_of_mem h.once hMem
  clear := h.clear
  free := h.free

/-- A clone has seen each branch where the origin has it. -/
theorem lookup_branches (h : origin.Offers branch tip) (name : String) :
    Refs.get? (origin.branches.map fun b => (.tracking originName b.1, b.2)) (.tracking originName name) =
      origin.refs.get? (.branch name) := by
  cases hSeen : Refs.get? (origin.branches.map fun b => (RefName.tracking originName b.1, b.2))
      (.tracking originName name) with
  | some commit =>
      obtain ⟨b, hMem, hRef⟩ := List.mem_map.1 (Refs.mem_of_get? hSeen)
      obtain ⟨hName, rfl⟩ := Prod.mk.inj hRef
      obtain ⟨-, rfl⟩ := RefName.tracking.inj hName
      exact (Refs.get?_of_mem h.once (Repository.mem_branches.1 hMem)).symm
  | none =>
      cases hBranch : origin.refs.get? (.branch name) with
      | none => rfl
      | some commit =>
          have hMem := Repository.mem_branches.2 (Refs.mem_of_get? hBranch)
          have hNot := List.lookup_eq_none_iff.1 hSeen _ (List.mem_map.2 ⟨_, hMem, rfl⟩)
          simp at hNot

theorem headTree (h : origin.Offers branch tip) : origin.headTree = tip.tree := by
  rw [Repository.headTree, headCommit?, h.head]
  simp only [h.points]
  rfl

/-- A clone is on the offered branch and tracks every branch of the remote. -/
theorem clone_refs (h : origin.Offers branch tip) (url : String) :
    (origin.clone url).head = .branch branch ∧ (origin.clone url).refs =
      Refs.set (origin.branches.map fun b => (.tracking originName b.1, b.2)) (.branch branch) tip := by
  have hCommit : origin.headCommit? = some tip := by
    rw [headCommit?, h.head]
    exact h.points
  have hHead : origin.cloneHead = .branch branch := by
    rw [cloneHead, h.head, hCommit]
  simp [clone, hHead, hCommit]

/-- A fresh clone is at rest, with everything of the offered commit staged. -/
theorem clone_stands (h : origin.Offers branch tip) (url : String) :
    (origin.clone url).Stands (origin.link url branch) tip tip tip.tree := by
  obtain ⟨hHead, hRefs⟩ := h.clone_refs url
  have hTracking : ∀ ref ∈ origin.branches.map fun b => (RefName.tracking originName b.1, b.2),
      ∃ name commit, ref = (.tracking originName name, commit) ∧ (.branch name, commit) ∈ origin.refs := by
    intro ref hRef
    obtain ⟨b, hMem, rfl⟩ := List.mem_map.1 hRef
    exact ⟨b.1, b.2, rfl, Repository.mem_branches.1 hMem⟩
  have hBranch : (origin.link url branch).branch = branch := rfl
  constructor
  · exact hHead
  · rw [hRefs, hBranch, Refs.get?_set, if_pos rfl]
  · rw [hRefs, hBranch, Refs.get?_set, if_neg (by simp), h.lookup_branches, h.points]
  · intro name _
    rw [hRefs, Refs.get?_set, if_neg (by simp), h.lookup_branches]
    rfl
  -- the branch can clash only with tracking branches, which lie elsewhere
  · rw [hRefs, hBranch]
    refine Refs.clashes_set (Refs.clashes_eq_false_iff.2 fun ref hRef => ?_) (.refl _)
    obtain ⟨name, commit, rfl, -⟩ := hTracking ref hRef
    exact (RefName.apart_branch_tracking branch originName name).symm
  -- and its tracking branch only with another one, as the branch itself would at the remote
  · rw [hRefs, hBranch]
    refine Refs.clashes_set (Refs.clashes_eq_false_iff.2 fun ref hRef => ?_)
      (RefName.apart_branch_tracking branch originName branch)
    obtain ⟨name, commit, rfl, hMem⟩ := hTracking ref hRef
    have hApart := Refs.clashes_eq_false_iff.1 h.clear (.branch name, commit) hMem
    exact (RefName.apart_tracking_iff originName name branch).2 hApart
  · simp [clone, link]
  · exact congrArg Index.ofTree h.headTree
  · rfl
  · rfl

end Repository.Offers

end VaultSync.Git
