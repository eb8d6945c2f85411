import VaultSync.Proofs.Git.Record
import VaultSync.Proofs.Git.Outcome
import VaultSync.Proofs.Git.Uncommitted
import Mathlib.Data.Set.Card

/-! What a status counts. Every path that the last commit, the index and the files do not agree on is counted
once, in a count that says how it differs, unless it is in conflict. Such a path is not counted at all, so
where there are conflicts a status can see nothing to record although there is something to settle. -/
namespace VaultSync.Git

theorem Tree.nodup_unionPaths (trees : List Tree) : (Tree.unionPaths trees).Nodup :=
  (pairwise_sortPaths _).imp fun {a b} (hLess : a < b) (hSame : a = b) => List.lt_irrefl b (hSame ▸ hLess)

namespace Checkout

variable {c : Checkout} {path : TreePath}

/-- The last commit, the index and the work tree do not all have the same at a path. -/
def Differs (c : Checkout) (path : TreePath) : Prop :=
  ¬ (c.headTree.get? path = c.index.staged.get? path ∧ c.index.staged.get? path = c.work.get? path)

instance : Decidable (c.Differs path) :=
  inferInstanceAs (Decidable (¬ _))

/-- A path that is in the index and gone from the work tree. -/
def IsMissing (c : Checkout) (path : TreePath) : Prop :=
  c.index.staged.get? path ≠ none ∧ c.work.get? path = none

/-- A path that is only in the work tree. -/
def IsUntracked (c : Checkout) (path : TreePath) : Prop :=
  c.headTree.get? path = none ∧ c.index.staged.get? path = none ∧ c.work.get? path ≠ none

theorem IsMissing.differs (h : c.IsMissing path) : c.Differs path :=
  fun hSame => h.1 (hSame.2.trans h.2)

theorem IsUntracked.differs (h : c.IsUntracked path) : c.Differs path :=
  fun hSame => h.2.2 (hSame.2.symm.trans h.2.1)

theorem IsMissing.not_isUntracked (h : c.IsMissing path) : ¬ c.IsUntracked path :=
  fun hUntracked => h.1 hUntracked.2.1

/-! ### How a path stands -/

/-- A path with an open conflict stands as conflicted, whatever else holds of it. -/
theorem standing_of_conflict (h : path ∈ c.index.conflicts) : c.standing path = .conflicted := by
  simp [standing, h]

/-- The four ways a path without a conflict can stand, where no rule leaves it out. -/
theorem standing_cases (hSettled : path ∉ c.index.conflicts) (hKept : Ignore.isIgnored c path = false) :
    (c.IsMissing path ∧ c.standing path = .missing) ∨ (c.IsUntracked path ∧ c.standing path = .untracked) ∨
      (c.Differs path ∧ ¬ c.IsMissing path ∧ ¬ c.IsUntracked path ∧ c.standing path = .changed) ∨
      (¬ c.Differs path ∧ c.standing path = .same) := by
  have hSettled : c.index.conflicts.contains path = false := by simpa using hSettled
  rw [standing, hSettled, hKept, Differs, IsMissing, IsUntracked]
  cases c.index.staged.get? path with
  | some staged =>
      cases c.work.get? path with
      | none => simp
      | some content =>
          by_cases hSame : c.headTree.get? path = some staged ∧ staged = content
          · simp [hSame]
          · simp [hSame]
  | none => cases c.headTree.get? path <;> cases c.work.get? path <;> simp

/-- What is counted as missing, as untracked and as changed. -/
theorem standing_iff (hKept : Ignore.isIgnored c path = false) :
    (c.standing path = .missing ↔ path ∉ c.index.conflicts ∧ c.IsMissing path) ∧
      (c.standing path = .untracked ↔ path ∉ c.index.conflicts ∧ c.IsUntracked path) ∧
      (c.standing path = .changed ↔
        path ∉ c.index.conflicts ∧ c.Differs path ∧ ¬ c.IsMissing path ∧ ¬ c.IsUntracked path) := by
  by_cases hConflict : path ∈ c.index.conflicts
  · simp [standing_of_conflict hConflict, hConflict]
  · rcases standing_cases hConflict hKept with ⟨hMissing, h⟩ | ⟨hUntracked, h⟩ | ⟨hDiffers, hTracked, hStaged, h⟩ |
      ⟨hSame, h⟩
    · simp [h, hConflict, hMissing, hMissing.not_isUntracked]
    · have hThere : ¬ c.IsMissing path := fun hMissing => hMissing.not_isUntracked hUntracked
      simp [h, hConflict, hUntracked, hThere]
    · simp [h, hConflict, hDiffers, hTracked, hStaged]
    · have hThere : ¬ c.IsMissing path := fun hMissing => hSame hMissing.differs
      have hKnown : ¬ c.IsUntracked path := fun hUntracked => hSame hUntracked.differs
      simp [h, hConflict, hSame, hThere, hKnown]

/-! ### Counting -/

/-- A status counts each path once that stands as it is counted. -/
theorem encard_standing {standing : Standing} (hKind : standing ≠ .same ∧ standing ≠ .conflicted) :
    {path | c.standing path = standing}.encard = c.count standing := by
  have hPaths : {path | c.standing path = standing} =
      ((c.paths.filter fun path => c.standing path = standing).toFinset : Set TreePath) := by
    ext path
    simp only [Set.mem_ofPred_eq, List.coe_toFinset, List.mem_filter, decide_eq_true_eq, iff_and_self]
    intro hStanding
    by_contra hAbsent
    rcases standing_of_notMem_paths hAbsent with hSame | hConflicted
    · exact hKind.1 (hStanding.symm.trans hSame)
    · exact hKind.2 (hStanding.symm.trans hConflicted)
  have hOnce : (c.paths.filter fun path => c.standing path = standing).Nodup :=
    (Tree.nodup_unionPaths _).filter _
  rw [hPaths, Set.encard_coe_eq_coe_finsetCard, List.toFinset_card_of_nodup hOnce, count]

/-- With nothing to record every path without a conflict that the last commit or the index has is as in the
last commit, in the index and in the work tree. -/
theorem pending_eq_zero_iff {report : StatusReport} (hStatus : c.status = .ok report)
    (hKept : ∀ path, Ignore.isIgnored c path = false) : report.pending = 0 ↔
      ∀ path ∉ c.index.conflicts, c.headTree.get? path ≠ none ∨ c.index.staged.get? path ≠ none →
        ¬ c.Differs path := by
  constructor
  · intro hNothing path hSettled hTracked hDiffers
    obtain ⟨hStaged, hFile⟩ := staged_of_pending hStatus hNothing hSettled
    rw [hStaged, or_self] at hTracked
    obtain ⟨content, hContent⟩ := Option.ne_none_iff_exists'.1 hTracked
    exact hDiffers ⟨hStaged.symm, hStaged.trans (hContent.trans (hFile content hContent).symm)⟩
  · intro hSame
    obtain rfl := status_eq_ok hStatus
    rw [StatusReport.pending, Nat.add_eq_zero_iff]
    refine ⟨count_eq_zero_iff.2 fun path _ hChanged => ?_, count_eq_zero_iff.2 fun path _ hMissing => ?_⟩
    · obtain ⟨hSettled, hDiffers, hThere, hKnown⟩ := (standing_iff (hKept path)).2.2.1 hChanged
      refine hSame path hSettled ?_ hDiffers
      by_contra hUnknown
      rw [not_or, not_not, not_not] at hUnknown
      obtain ⟨hHead, hStaged⟩ := hUnknown
      exact hKnown ⟨hHead, hStaged, fun hWork => hDiffers ⟨hHead.trans hStaged.symm, hStaged.trans hWork.symm⟩⟩
    · obtain ⟨hSettled, hGone⟩ := (standing_iff (hKept path)).1.1 hMissing
      exact hSame path hSettled (.inr hGone.1) hGone.differs

/-- What a status counts where no rule leaves a file out. Outside conflicts each path that is not the same in
the last commit, the index and the work tree is counted once: as missing if it is gone from the work tree, as
untracked if it is only there, as changed otherwise. So there is nothing to record exactly if each path that
the last commit or the index has is the same in all three, or in conflict. After a staging that succeeded no
path is in conflict, so a sync leaves its commit out only if no such path differs. -/
theorem status_counts (hHead : c.head ≠ .unreadable) (hOwn : c.Ruleless) (hRules : c.work.Ruleless) :
    ∃ report, c.status = .ok report ∧
      {path | path ∉ c.index.conflicts ∧ c.IsMissing path}.encard = report.missing ∧
      {path | path ∉ c.index.conflicts ∧ c.IsUntracked path}.encard = report.untracked ∧
      {path | path ∉ c.index.conflicts ∧ c.Differs path ∧ ¬ c.IsMissing path ∧ ¬ c.IsUntracked path}.encard =
        report.changed ∧
      {path | path ∉ c.index.conflicts ∧ c.Differs path}.encard =
        report.changed + report.missing + report.untracked ∧
      (report.pending = 0 ↔ ∀ path ∉ c.index.conflicts,
        c.headTree.get? path ≠ none ∨ c.index.staged.get? path ≠ none → ¬ c.Differs path) ∧
      ∀ staged counted, c.addAll = (.ok (), staged) → staged.status = .ok counted → counted.pending = 0 →
        ∀ path, staged.headTree.get? path ≠ none ∨ staged.index.staged.get? path ≠ none →
          ¬ staged.Differs path := by
  have hKept := isIgnored_eq_false hOwn hRules
  have hStatus : c.status = .ok ⟨c.count .changed, c.count .missing, c.count .untracked⟩ := by
    rw [status, if_neg hHead]
  have hMissing : {path | path ∉ c.index.conflicts ∧ c.IsMissing path} = {path | c.standing path = .missing} :=
    Set.ext fun path => (standing_iff (hKept path)).1.symm
  have hUntracked : {path | path ∉ c.index.conflicts ∧ c.IsUntracked path} =
      {path | c.standing path = .untracked} :=
    Set.ext fun path => (standing_iff (hKept path)).2.1.symm
  have hChanged : {path | path ∉ c.index.conflicts ∧ c.Differs path ∧ ¬ c.IsMissing path ∧
      ¬ c.IsUntracked path} = {path | c.standing path = .changed} :=
    Set.ext fun path => (standing_iff (hKept path)).2.2.symm
  -- missing and untracked paths differ, and no path is both
  have hAll : {path | path ∉ c.index.conflicts ∧ c.Differs path} = {path | c.standing path = .changed} ∪
      {path | c.standing path = .missing} ∪ {path | c.standing path = .untracked} := by
    rw [← hChanged, ← hMissing, ← hUntracked]
    ext path
    by_cases hGone : c.IsMissing path
    · simp [hGone, hGone.differs, hGone.not_isUntracked]
    · by_cases hOnly : c.IsUntracked path
      · simp [hGone, hOnly, hOnly.differs]
      · simp [hGone, hOnly]
  refine ⟨_, hStatus, ?_, ?_, ?_, ?_, pending_eq_zero_iff hStatus hKept, ?_⟩
  · rw [hMissing, encard_standing (by decide)]
  · rw [hUntracked, encard_standing (by decide)]
  · rw [hChanged, encard_standing (by decide)]
  · have hApart {standing standing' : Standing} (h : standing ≠ standing') :
        Disjoint {path | c.standing path = standing} {path | c.standing path = standing'} :=
      Set.disjoint_left.2 fun _ hOne hOther => h (hOne.symm.trans hOther)
    have hOnly : Disjoint ({path | c.standing path = .changed} ∪ {path | c.standing path = .missing})
        {path | c.standing path = .untracked} :=
      Set.disjoint_union_left.2 ⟨hApart (by decide), hApart (by decide)⟩
    rw [hAll, Set.encard_union_eq hOnly, Set.encard_union_eq (hApart (by decide)),
      encard_standing (by decide), encard_standing (by decide), encard_standing (by decide)]
  · intro staged counted hAdd hCounted hNothing path hTracked
    obtain ⟨-, rfl⟩ := addAll_eq_ok hAdd
    have hKept' (path : TreePath) : Ignore.isIgnored { c with index := c.stagedAll } path = false :=
      (isIgnored_congr (fun _ => rfl) rfl path).trans (hKept path)
    exact (pending_eq_zero_iff hCounted hKept').1 hNothing path List.not_mem_nil hTracked

/-- One file was edited, one deleted and one added: three paths differ, and each is counted. -/
theorem status_counts_three :
    let tip := writes "b" "2" (some (writes "a" "1" none))
    let c := { standingAt tip with work := (Tree.empty.put ["a"] "3".toUTF8).put ["new"] "4".toUTF8 }
    c.status = .ok ⟨1, 1, 1⟩ ∧ {path | path ∉ c.index.conflicts ∧ c.Differs path}.encard = 3 := by
  intro tip c
  have hStatus : c.status = .ok ⟨1, 1, 1⟩ := eq_ok_of_toOption (by decide +kernel)
  obtain ⟨report, hReport, -, -, -, hAll, -⟩ := status_counts (c := c) (by decide +kernel)
    (Repository.ruleless_of_strays rfl) (Tree.plain_of_paths (by decide +kernel)).ruleless
  obtain rfl := Except.ok.inj (hStatus.symm.trans hReport)
  exact ⟨hStatus, hAll⟩

/-- Both sides have added a file, so a pull has stopped. The last commit has the file and the index does not,
and a status sees nothing. -/
theorem status_misses_conflict :
    let shared := writes "a" "1" none
    let ours := writes "f" "2" (some shared)
    let theirs := writes "f" "3" (some shared)
    let stopped := ((standingAt ours).pull (some writer) (reachAt theirs) "origin").2
    stopped.index.conflicts = [["f"]] ∧ stopped.headTree.get? ["f"] ≠ none ∧ stopped.Differs ["f"] ∧
      stopped.status.toOption = some ⟨0, 0, 0⟩ := by
  decide +kernel

end Checkout

end VaultSync.Git
