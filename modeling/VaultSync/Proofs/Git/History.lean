import VaultSync.Git.History

/-! The graph of commits: which commits come before one, and which a branch has that a base does not. -/
namespace VaultSync.Git

namespace Commit

variable {commit other tip base parent : Commit} {revision : Revision} {parents own : List Commit}

/-- What each commit has from the commits that it was made on holds of all commits. -/
@[elab_as_elim, induction_eliminator]
theorem induction {motive : Commit → Prop}
    (mk : ∀ revision parents, (∀ parent ∈ parents, motive parent) → motive ⟨revision, parents⟩)
    (commit : Commit) : motive commit :=
  @Commit.rec motive (fun parents => ∀ parent ∈ parents, motive parent) mk (fun _ h => nomatch h)
    (fun _ _ hHead hTail _ hMem => (List.mem_cons.1 hMem).elim (· ▸ hHead) (hTail _ ·)) commit

@[simp] theorem revision_on (parent : Option Commit) (revision : Revision) :
    (on parent revision).revision = revision := rfl

@[simp] theorem parents_on (parent : Option Commit) (revision : Revision) :
    (on parent revision).parents = parent.toList := rfl

@[simp] theorem tree_on (parent : Option Commit) (revision : Revision) :
    (on parent revision).tree = revision.tree := rfl

/-- A commit made on at most one parent has that parent as its first. -/
@[simp] theorem parent?_on (parent : Option Commit) (revision : Revision) :
    (on parent revision).parent? = parent := by
  cases parent <;> rfl

/-- A new commit stands at the head of the first parents of what it is made on. -/
@[simp] theorem history_on (parent : Commit) (revision : Revision) :
    (on (some parent) revision).history = revision :: parent.history := by
  rw [on, Option.toList_some, history]

/-! ### Ancestors -/

/-- What one of several commits reaches is what one of them reaches by itself. -/
theorem mem_ancestorsOfAll : commit ∈ ancestorsOfAll parents ↔ ∃ parent ∈ parents, commit ∈ parent.ancestors := by
  induction parents with
  | nil => simp [ancestorsOfAll]
  | cons parent rest ih => simp [ancestorsOfAll, ih]

/-- A commit comes before another one when it is that one or comes before one of its parents. -/
theorem mem_ancestors_iff :
    commit ∈ other.ancestors ↔ commit = other ∨ ∃ parent ∈ other.parents, commit ∈ parent.ancestors := by
  cases other
  rw [ancestors, List.mem_cons, mem_ancestorsOfAll]
  rfl

theorem mem_ancestors_self (commit : Commit) : commit ∈ commit.ancestors :=
  mem_ancestors_iff.2 (.inl rfl)

/-- A commit reaches each of its parents, the merged ones too. -/
theorem mem_ancestors_of_parent (h : parent ∈ commit.parents) : parent ∈ commit.ancestors :=
  mem_ancestors_iff.2 (.inr ⟨parent, h, parent.mem_ancestors_self⟩)

@[simp] theorem ancestors_on_none (revision : Revision) : (on none revision).ancestors = [on none revision] := by
  simp [on, ancestors, ancestorsOfAll]

@[simp] theorem ancestors_on_some (parent : Commit) (revision : Revision) :
    (on (some parent) revision).ancestors = on (some parent) revision :: parent.ancestors := by
  simp [on, ancestors, ancestorsOfAll]

/-- What a new commit reaches beyond itself is what its parent reaches. -/
theorem mem_ancestors_on :
    commit ∈ (on (some parent) revision).ancestors ↔
      commit = on (some parent) revision ∨ commit ∈ parent.ancestors := by
  rw [ancestors_on_some, List.mem_cons]

/-- Reaching is transitive. -/
theorem mem_ancestors_trans (h : commit ∈ other.ancestors) (h' : other ∈ tip.ancestors) :
    commit ∈ tip.ancestors := by
  induction tip with
  | mk revision parents ih =>
      rcases mem_ancestors_iff.1 h' with rfl | ⟨parent, hParent, hOther⟩
      · exact h
      · exact mem_ancestors_iff.2 (.inr ⟨parent, hParent, ih parent hParent hOther⟩)

/-- A parent is a smaller value than its commit; histories hold no cycle. -/
theorem sizeOf_lt_of_parent (h : parent ∈ commit.parents) : sizeOf parent < sizeOf commit := by
  cases commit with
  | mk revision parents =>
      have hElement : sizeOf parent < sizeOf parents := List.sizeOf_lt_of_mem h
      rw [mk.sizeOf_spec]
      omega

/-- What a commit reaches is the commit or smaller. -/
theorem eq_or_sizeOf_lt (h : commit ∈ other.ancestors) :
    commit = other ∨ sizeOf commit < sizeOf other := by
  induction other with
  | mk revision parents ih =>
      rcases mem_ancestors_iff.1 h with hSame | ⟨parent, hParent, hBefore⟩
      · exact .inl hSame
      · have hSmaller := sizeOf_lt_of_parent hParent
        rcases ih parent hParent hBefore with rfl | hLt
        · exact .inr hSmaller
        · exact .inr (Nat.lt_trans hLt hSmaller)

/-- No commit comes before one that it was made on. -/
theorem not_mem_ancestors_of_parent (h : parent ∈ commit.parents) : commit ∉ parent.ancestors := by
  intro hBefore
  have hSmaller := sizeOf_lt_of_parent h
  rcases eq_or_sizeOf_lt hBefore with rfl | hLt
  · omega
  · omega

theorem isAncestorOf_iff : commit.isAncestorOf other = true ↔ commit ∈ other.ancestors :=
  List.contains_iff_mem

theorem isAncestorOf_eq_false_iff : commit.isAncestorOf other = false ↔ commit ∉ other.ancestors := by
  rw [← isAncestorOf_iff, Bool.not_eq_true]

/-- A commit counts as its own ancestor, as an up-to-date branch does. -/
theorem isAncestorOf_refl (commit : Commit) : commit.isAncestorOf commit = true :=
  isAncestorOf_iff.2 commit.mem_ancestors_self

/-- Two commits that reach each other are one. -/
theorem eq_of_isAncestorOf (h : commit.isAncestorOf other = true) (h' : other.isAncestorOf commit = true) :
    commit = other := by
  rcases eq_or_sizeOf_lt (isAncestorOf_iff.1 h) with hSame | hLt
  · exact hSame
  · rcases eq_or_sizeOf_lt (isAncestorOf_iff.1 h') with hSame | hGt
    · exact hSame.symm
    · omega

/-! ### Commits on top of another one -/

/-- The commit that is reached from another one by recording revisions, each on top of the one before it. -/
def extend (base : Commit) (made : List Revision) : Commit :=
  made.foldl (fun tip revision => .on (some tip) revision) base

/-- The last revision of a line is made on the rest of it. -/
theorem extend_concat (base : Commit) (made : List Revision) (revision : Revision) :
    base.extend (made ++ [revision]) = .on (some (base.extend made)) revision :=
  List.foldl_append

/-- A line on a base has the revisions of the line, newest first, before the first parents of the base. -/
theorem history_extend (base : Commit) (made : List Revision) :
    (base.extend made).history = made.reverse ++ base.history := by
  induction made generalizing base with
  | nil => rfl
  | cons revision made ih =>
      rw [extend, List.foldl_cons, ← extend, ih, history_on, List.reverse_cons, List.append_assoc]
      rfl

/-- The end of a line reaches its base. -/
theorem mem_ancestors_extend (base : Commit) (made : List Revision) : base ∈ (base.extend made).ancestors := by
  induction made generalizing base with
  | nil => exact base.mem_ancestors_self
  | cons revision made ih =>
      exact mem_ancestors_trans (mem_ancestors_on.2 (.inr base.mem_ancestors_self)) (ih (on (some base) revision))

/-- What leads to a commit on top of another one leads to that one, or is one of the revisions in between. -/
theorem mem_or_revision_mem_of_mem_extend {made : List Revision} (h : commit ∈ (base.extend made).ancestors) :
    commit ∈ base.ancestors ∨ commit.revision ∈ made := by
  induction made generalizing base with
  | nil => exact .inl h
  | cons revision made ih =>
      rcases ih h with hBefore | hMade
      · rcases mem_ancestors_on.1 hBefore with rfl | hBase
        · exact .inr List.mem_cons_self
        · exact .inl hBase
      · exact .inr (List.mem_cons_of_mem _ hMade)

/-- A commit on top of another one is that one, or the last of the revisions in between. -/
theorem extend_eq_or_revision_mem (base : Commit) (made : List Revision) :
    base.extend made = base ∨ (base.extend made).revision ∈ made := by
  rcases mem_or_revision_mem_of_mem_extend (base.extend made).mem_ancestors_self with hBefore | hMade
  · exact .inl (eq_of_isAncestorOf (isAncestorOf_iff.2 hBefore)
      (isAncestorOf_iff.2 (base.mem_ancestors_extend made)))
  · exact .inr hMade

/-! ### Commits that a base does not have -/

/-- The commits to be replayed are those of the branch that the base does not have, but for merges. -/
theorem mem_ahead : commit ∈ tip.ahead base ↔
    commit ∈ tip.ancestors ∧ commit ∉ base.ancestors ∧ commit.parents.length ≤ 1 := by
  simp [ahead, isAncestorOf_eq_false_iff]

/-- The commits of a branch that a base does not have lie in a line, oldest first: each was made on the one
before it alone, and the first on a commit that the base has, or on none. -/
inductive Chain (base : Commit) : Commit → List Commit → Prop
  | known {commit : Commit} (h : commit ∈ base.ancestors) : Chain base commit []
  | first {revision : Revision} (hNew : on none revision ∉ base.ancestors) :
      Chain base (on none revision) [on none revision]
  | next {parent : Commit} {revision : Revision} {own : List Commit} (h : Chain base parent own)
      (hNew : on (some parent) revision ∉ base.ancestors) :
      Chain base (on (some parent) revision) (own ++ [on (some parent) revision])

/-- Nothing of a tip is ahead of a base that reaches it. -/
theorem ahead_of_known (h : tip ∈ base.ancestors) : tip.ahead base = [] := by
  refine List.eq_nil_iff_forall_not_mem.2 fun commit hMem => ?_
  obtain ⟨hOwn, hNew, -⟩ := mem_ahead.1 hMem
  exact hNew (mem_ancestors_trans hOwn h)

/-- A commit on top of a branch is replayed after those of the branch. -/
theorem ahead_on (hNew : on (some parent) revision ∉ base.ancestors) :
    (on (some parent) revision).ahead base = parent.ahead base ++ [on (some parent) revision] := by
  have hFresh : on (some parent) revision ∉ parent.ancestors :=
    not_mem_ancestors_of_parent (by simp)
  rw [ahead, ancestors_on_some, List.reverse_cons, List.eraseDups_append, List.filter_append, ← ahead]
  simp [List.removeAll, hFresh, List.eraseDups_cons, isAncestorOf_eq_false_iff, hNew]

/-- The commits of a line are replayed, all of them and in their order. -/
theorem Chain.ahead (h : Chain base tip own) : tip.ahead base = own := by
  induction h with
  | known h => exact ahead_of_known h
  | first hNew => simp [Commit.ahead, List.eraseDups_cons, isAncestorOf_eq_false_iff, hNew]
  | next h hNew ih => rw [ahead_on hNew, ih]

end Commit

end VaultSync.Git
