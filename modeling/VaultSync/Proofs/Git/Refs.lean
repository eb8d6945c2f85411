import VaultSync.Git.Reference
import VaultSync.Proofs.Git.Tree
import VaultSync.Proofs.Text.Split

/-! Which names of a repository can stand beside each other. A branch never gets in the way of what is known
about a remote, and what is known about the branches of one remote clashes as the branches do. -/
namespace VaultSync.Git

namespace RefName

theorem text_branch (name : String) : (branch name).text = "refs/heads/" ++ name := rfl

theorem text_tracking (remote name : String) :
    (tracking remote name).text = "refs/remotes/" ++ remote ++ "/" ++ name := rfl

/-- The file of a branch lies below `refs/heads`, one component for each part of its name. -/
theorem path_branch (name : String) :
    (branch name).path = ["refs", "heads"] ++ Text.splitOnChar '/' name := by
  have hText : (branch name).text = "refs" ++ "/" ++ ("heads" ++ "/" ++ name) := by
    have hHeads : "refs/heads/" = "refs" ++ "/" ++ "heads" ++ "/" := by decide
    rw [text_branch, hHeads]
    simp only [String.append_assoc]
  rw [path, hText, Text.splitOnChar_slash, Text.splitOnChar_slash,
    Text.splitOnChar_of_notMem (by decide), Text.splitOnChar_of_notMem (by decide)]
  rfl

/-- The file of a tracking branch lies below the directory of its remote. -/
theorem path_tracking (remote name : String) :
    (tracking remote name).path =
      ["refs", "remotes"] ++ Text.splitOnChar '/' remote ++ Text.splitOnChar '/' name := by
  have hText : (tracking remote name).text =
      "refs" ++ "/" ++ ("remotes" ++ "/" ++ (remote ++ "/" ++ name)) := by
    have hRemotes : "refs/remotes/" = "refs" ++ "/" ++ "remotes" ++ "/" := by decide
    rw [text_tracking, hRemotes]
    simp only [String.append_assoc]
  rw [path, hText, Text.splitOnChar_slash, Text.splitOnChar_slash, Text.splitOnChar_slash,
    Text.splitOnChar_of_notMem (by decide), Text.splitOnChar_of_notMem (by decide)]
  simp

/-- Neither name needs a directory where the other one is a file. -/
def Apart (a b : RefName) : Prop :=
  a.path.isBelow b.path = false ∧ b.path.isBelow a.path = false

theorem Apart.refl (name : RefName) : Apart name name :=
  ⟨TreePath.not_isBelow_self _, TreePath.not_isBelow_self _⟩

theorem Apart.symm {a b : RefName} (h : Apart a b) : Apart b a :=
  ⟨h.2, h.1⟩

/-- A branch never clashes with a tracking branch. -/
theorem apart_branch_tracking (name remote other : String) :
    Apart (branch name) (tracking remote other) := by
  rw [Apart, path_branch, path_tracking]
  simp [TreePath.isBelow]

/-- Tracking branches of one remote clash when the branches do. -/
theorem apart_tracking_iff (remote a b : String) :
    Apart (tracking remote a) (tracking remote b) ↔ Apart (branch a) (branch b) := by
  rw [Apart, Apart, path_tracking, path_tracking, path_branch, path_branch,
    TreePath.isBelow_append_left, TreePath.isBelow_append_left, TreePath.isBelow_append_left,
    TreePath.isBelow_append_left]

end RefName

namespace Refs

variable {refs : Refs} {name other : RefName} {commit : Commit}

/-- A name clashes with nothing when every reference is apart from it. -/
theorem clashes_eq_false_iff : refs.clashes name = false ↔ ∀ ref ∈ refs, ref.1.Apart name := by
  rw [clashes, List.any_eq_false]
  simp only [RefName.Apart, Bool.or_eq_true, not_or, Bool.not_eq_true]

theorem mem_set {ref : RefName × Commit} :
    ref ∈ refs.set name commit ↔ (ref ∈ refs ∧ ref.1 ≠ name) ∨ ref = (name, commit) := by
  simp [set]

/-- Pointing a name somewhere takes no place from the names that it stands apart from. -/
theorem clashes_set (h : refs.clashes other = false) (hApart : name.Apart other) :
    (refs.set name commit).clashes other = false := by
  rw [clashes_eq_false_iff] at h ⊢
  intro ref hRef
  rcases mem_set.1 hRef with ⟨hOld, -⟩ | rfl
  · exact h ref hOld
  · exact hApart

theorem mem_of_get? (h : refs.get? name = some commit) : (name, commit) ∈ refs := by
  obtain ⟨front, back, rfl, -⟩ := List.lookup_eq_some_iff.1 h
  simp

theorem get?_eq_none_iff : refs.get? name = none ↔ ∀ ref ∈ refs, ref.1 ≠ name := by
  rw [get?, List.lookup_eq_none_iff]
  simp only [bne_iff_ne, ne_comm]

/-- When every name stands once, a name points at the commit that it stands with. -/
theorem get?_of_mem (hOnce : (refs.map (·.1)).Nodup) (h : (name, commit) ∈ refs) :
    refs.get? name = some commit := by
  induction refs with
  | nil => simp at h
  | cons ref refs ih =>
      rw [List.map_cons, List.nodup_cons] at hOnce
      rw [get?, List.lookup_cons]
      rcases List.mem_cons.1 h with rfl | h
      · simp
      · have hName : name ≠ ref.1 := fun hName => hOnce.1 (List.mem_map.2 ⟨_, h, hName⟩)
        rw [beq_false_of_ne hName]
        exact ih hOnce.2 h

end Refs

end VaultSync.Git
