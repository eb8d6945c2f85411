import VaultSync.Git.Record
import VaultSync.Proofs.Git.Clean
import VaultSync.Proofs.Git.Switch

/-! What staging and recording can do to a checkout. Either they fail and change nothing, or staging puts the
files into the index and recording moves to a new commit. -/
namespace VaultSync.Git

namespace Repository

variable {repo repo' : Repository} {commit : Commit}

/-- A repository that advances stays on its branch. Without one it moves to the commit. -/
theorem advance_head (h : repo.advance commit = some repo') :
    (∃ branch, repo.head = .branch branch ∧ repo'.head = .branch branch) ∨
      ∃ current, repo.head = .detached current ∧ repo'.head = .detached commit := by
  rw [advance] at h
  split at h
  · rename_i branch hHead
    obtain ⟨-, -, rfl⟩ := point_eq_some_iff.1 h
    exact .inl ⟨branch, hHead, hHead⟩
  · rename_i current hHead
    obtain ⟨-, rfl⟩ := moveTo_eq_some_iff.1 h
    exact .inr ⟨current, hHead, rfl⟩
  · cases h

/-- On a detached `HEAD` a commit moves `HEAD` itself. -/
theorem advance_of_detached {current : Commit} (hHead : repo.head = .detached current)
    (hFree : repo.isLocked ["HEAD"] = false) :
    repo.advance commit = some { repo with head := .detached commit } := by
  rw [advance, hHead]
  exact moveTo_eq_some_iff.2 ⟨hFree, rfl⟩

end Repository

namespace Checkout

variable {c c' : Checkout} {author : Option Person} {message : String}

/-! ### Staging -/

/-- Staging everything puts each path at what the work tree holds there. -/
theorem get?_stagedAll (c : Checkout) (path : TreePath) :
    c.stagedAll.staged.get? path = c.stagedContent path := by
  rw [stagedAll, Index.ofTree, Tree.get?_tabulate]
  split
  · rfl
  · rename_i hNone
    rw [Tree.mem_paths, ne_eq, Decidable.not_not] at hNone
    rw [stagedContent, hNone, ite_self]

/-- Nothing is staged at a path but its file. -/
theorem stagedContent_cases (c : Checkout) (path : TreePath) :
    c.stagedContent path = c.work.get? path ∨ c.stagedContent path = none := by
  rw [stagedContent]
  split
  · exact .inl rfl
  · exact .inr rfl

/-- A path in conflict is staged as its file is. -/
theorem stagedContent_of_conflict {path : TreePath} (h : path ∈ c.index.conflicts) :
    c.stagedContent path = c.work.get? path := by
  have hTracked : c.isTracked path = true := by simp [isTracked, h]
  rw [stagedContent, hTracked, Bool.true_or, if_pos rfl]

/-- With everything staged a status sees nothing to record exactly if that is the tree of the last commit. -/
theorem status_of_stagedAll (hHead : c.head ≠ .unreadable) :
    ∃ report, ({ c with index := c.stagedAll } : Checkout).status = .ok report ∧
      (report.pending = 0 ↔ c.stagedAll.staged = c.headTree) := by
  have hHeld (path : TreePath) (content : ByteArray) (hContent : c.stagedAll.staged.get? path = some content) :
      c.work.get? path = some content := by
    rw [get?_stagedAll] at hContent
    rcases c.stagedContent_cases path with hFile | hNone
    · rw [← hFile, hContent]
    · cases hNone.symm.trans hContent
  obtain ⟨report, hReport, hPending⟩ :=
    status_of_held (c := { c with index := c.stagedAll }) hHead rfl hHeld
  exact ⟨report, hReport, hPending.trans eq_comm⟩

/-- What staging needs: a file for every path in conflict, and an index that can be written. -/
structure Stageable (c : Checkout) : Prop where
  present : ∀ path ∈ c.index.conflicts, c.work.get? path ≠ none
  free : c.isLocked ["index"] = false

/-- Staging puts the files into the index if it can, and does nothing otherwise. -/
theorem addAll_cases (c : Checkout) :
    (c.Stageable ∧ c.addAll = (.ok (), { c with index := c.stagedAll })) ∨
      (¬ c.Stageable ∧ c.addAll = (.error (failed "stage changes"), c)) := by
  rw [addAll]
  split
  · rename_i hMissing
    obtain ⟨path, hPath, hNone⟩ := List.any_eq_true.1 hMissing
    exact .inr ⟨fun h => h.present path hPath (Option.isNone_iff_eq_none.1 hNone), rfl⟩
  · rename_i hPresent
    rw [List.any_eq_true, not_exists] at hPresent
    cases hWrite : c.within (·.writeIndex c.stagedAll) with
    | some staged =>
        obtain ⟨repo, hRepo, rfl⟩ := within_eq_some_iff.1 hWrite
        obtain ⟨hFree, rfl⟩ := Repository.writeIndex_eq_some_iff.1 hRepo
        refine .inl ⟨⟨fun path hPath hNone => hPresent path ⟨hPath, ?_⟩, hFree⟩, rfl⟩
        rw [hNone, Option.isNone_none]
    | none =>
        refine .inr ⟨fun h => ?_, rfl⟩
        have hStaged : c.within (·.writeIndex c.stagedAll) = some { c with index := c.stagedAll } :=
          within_eq_some_iff.2 ⟨_, Repository.writeIndex_eq_some_iff.2 ⟨h.free, rfl⟩, rfl⟩
        rw [hWrite] at hStaged
        cases hStaged

/-- Staging that succeeds stages everything and changes nothing else. -/
theorem addAll_eq_ok (h : c.addAll = (.ok (), c')) : c.Stageable ∧ c' = { c with index := c.stagedAll } := by
  rcases c.addAll_cases with ⟨hStageable, hAdd⟩ | ⟨-, hAdd⟩
  · exact ⟨hStageable, (Prod.mk.inj (h.symm.trans hAdd)).2⟩
  · cases (Prod.mk.inj (h.symm.trans hAdd)).1

/-- Recording makes the index a commit on top of the current one, if an author and a message can be recorded
and no path is in conflict, and does nothing otherwise. -/
theorem commit_cases (author : Option Person) (message : String) (c : Checkout) :
    (∃ person repo, author = some person ∧ '\x00' ∉ message.toList ∧ c.index.conflicts = [] ∧
        c.advance (.on c.headCommit? (.record c.index.staged person person message)) = some repo ∧
        c.commit author message = (.ok (), { c with toRepository := repo })) ∨
      ∃ e, c.commit author message = (.error e, c) := by
  cases author with
  | none => exact .inr ⟨_, rfl⟩
  | some person =>
      -- each check refuses before anything is written, and so does the write itself
      rw [commit]
      split
      · exact .inr ⟨_, rfl⟩
      · rename_i hConflicts
        rw [Bool.not_eq_true, Bool.not_eq_false', List.isEmpty_iff] at hConflicts
        split
        · exact .inr ⟨_, rfl⟩
        · split
          · exact .inr ⟨_, rfl⟩
          · rename_i hMessage
            rw [List.contains_iff_mem] at hMessage
            dsimp only
            split
            · rename_i recorded hRecord
              obtain ⟨repo, hRepo, rfl⟩ := within_eq_some_iff.1 hRecord
              exact .inl ⟨person, repo, rfl, hMessage, hConflicts, hRepo, rfl⟩
            · exact .inr ⟨_, rfl⟩

/-- A commit that succeeds has an author, a message without the null character, and no open conflict. -/
theorem commit_eq_ok (h : c.commit author message = (.ok (), c')) :
    ∃ person repo, author = some person ∧ '\x00' ∉ message.toList ∧ c.index.conflicts = [] ∧
      c.advance (.on c.headCommit? (.record c.index.staged person person message)) = some repo ∧
      c' = { c with toRepository := repo } := by
  rcases c.commit_cases author message with ⟨person, repo, hAuthor, hMessage, hConflicts, hRepo, hCommit⟩ |
    ⟨e, hCommit⟩
  · exact ⟨person, repo, hAuthor, hMessage, hConflicts, hRepo, (Prod.mk.inj (h.symm.trans hCommit)).2⟩
  · cases (Prod.mk.inj (h.symm.trans hCommit)).1

/-- What recording does on no branch, where that is not locked. -/
theorem commit_of_detached {current : Commit} (hHead : c.head = .detached current)
    (hFree : c.isLocked ["HEAD"] = false) (author : Option Person) (message : String) :
    (∃ person, author = some person ∧ '\x00' ∉ message.toList ∧ c.index.conflicts = [] ∧
        c.commit author message = (.ok (), { c with
          head := .detached (.on (some current) (.record c.index.staged person person message)) })) ∨
      ((author = none ∨ '\x00' ∈ message.toList ∨ c.index.conflicts ≠ []) ∧
        ∃ e, c.commit author message = (.error e, c)) := by
  cases author with
  | none => exact .inr ⟨.inl rfl, _, rfl⟩
  | some person =>
      by_cases hConflicts : c.index.conflicts = []
      · by_cases hMessage : '\x00' ∈ message.toList
        · refine .inr ⟨.inr (.inl hMessage), failed "commit", ?_⟩
          simp [commit, hConflicts, hHead, hMessage]
        · refine .inl ⟨person, rfl, hMessage, hConflicts, ?_⟩
          have hCommit : c.headCommit? = some current := by rw [Repository.headCommit?, hHead]
          simp [commit, hConflicts, hHead, hMessage, hCommit, within, Repository.advance_of_detached hHead hFree]
      · refine .inr ⟨.inr (.inr hConflicts), failed "write tree", ?_⟩
        simp [commit, hConflicts]

/-- A checkout that records stays on its branch and keeps its remotes. -/
theorem commit_frame (h : c.commit author message = (.ok (), c')) :
    (∀ branch, c'.head = .branch branch → c.head = .branch branch) ∧ c'.remotes = c.remotes := by
  obtain ⟨person, repo, -, -, -, hRepo, rfl⟩ := commit_eq_ok h
  obtain ⟨hRest, -⟩ := Repository.advance_eq_some hRepo
  refine ⟨fun branch hBranch => ?_, congrArg (·.remotes) hRest⟩
  rcases Repository.advance_head hRepo with ⟨name, hHead, hStays⟩ | ⟨current, -, hMoved⟩
  · rw [hHead, ← hStays]
    exact hBranch
  · cases hBranch.symm.trans hMoved

end Checkout

end VaultSync.Git
