import VaultSync.Proofs.Git.Outcome

/-! What a pull that would move the branch ahead leaves when it fails. The fetch and a checkout that is refused
touch nothing but what is known of the remote. Behind that the files and the index, the branch and then HEAD
are written one after the other, and none is written back when the next one cannot be. -/
namespace VaultSync.Git.Checkout

variable {c c' : Checkout} {branch remote : String} {reach : Reach} {tip base : Commit} {source target : Tree}
  {e : TransportError}

/-- A directory with a file that stays is in the place of a file of the target. -/
def Obstructed (c : Checkout) (source target : Tree) : Prop :=
  ∃ path below, target.get? path ≠ none ∧ TreePath.isBelow below path = true ∧
    c.afterRemoval source target below ≠ none

/-- A switch that is broken off has found a directory in the place of a file, or could not write the index.
It touches files only, and leaves each as it was or makes it that of the target. -/
theorem switch_eq_broken (h : c.switch source target = .broken c') :
    (c.isLocked ["index"] = true ∨ c.Obstructed source target) ∧ c' = { c with work := c'.work } ∧
      ∀ path, c'.work.get? path = c.work.get? path ∨ c'.work.get? path = target.get? path := by
  have hSwitches := c.switches source target
  rw [h] at hSwitches
  refine ⟨?_, ?_, fun path => ?_⟩
  · rw [switch, ← switchPaths] at h
    split at h
    · cases h
    · split at h
      · rename_i path hObstacle
        have hFound := List.find?_some hObstacle
        simp only [Bool.and_eq_true, Option.isSome_iff_ne_none] at hFound
        obtain ⟨⟨-, hFile⟩, hBelow⟩ := hFound
        obtain ⟨below, hStays, hBelow⟩ := Tree.hasBelow_iff.1 hBelow
        -- an obstacle is a file to come above one that stays after the removals
        rw [get?_tabulate_switchPaths afterRemoval_of_notMem] at hStays
        exact .inr ⟨path, below, hFile, hBelow, hStays⟩
      · dsimp only at h
        split at h
        · cases h
        · rename_i hNone
          exact .inl (Repository.writeIndex_eq_none_iff.1 (within_eq_none_iff.1 hNone))
  · cases hSwitches with
    | broken => rfl
  · cases hSwitches with
    | broken hConflicts hSafe hWork =>
        rcases hWork path with hSwitched | hRemoved
        · rw [afterSwitch] at hSwitched
          split at hSwitched
          · exact .inl hSwitched
          · exact .inr hSwitched
        · rw [afterRemoval] at hRemoved
          split at hRemoved
          · rename_i hGone
            exact .inr (hRemoved.trans (Option.isNone_iff_eq_none.1 (Bool.and_eq_true_iff.1 hGone).2).symm)
          · exact .inl hRemoved

/-- The index is that of a commit, and so is every file that it or the commit before has. -/
structure Entered (base : Commit) (c c' : Checkout) : Prop where
  rest : c' = { c with refs := c'.refs, index := .ofTree base.tree, work := c'.work }
  file : ∀ path, c'.work.get? path =
    if c.headTree.get? path = none ∧ base.tree.get? path = none then c.work.get? path else base.tree.get? path

theorem Entered.headTree_of_refs (h : Entered base c c') (hRefs : c'.refs = c.refs) : c'.headTree = c.headTree := by
  rw [h.rest, hRefs]
  rfl

/-- What a status sees to record in files and an index that are those of a commit. -/
theorem Entered.status (h : Entered base c c') (hHead : c.head ≠ .unreadable) :
    ∃ report, c'.status = .ok report ∧ (report.pending = 0 ↔ c'.headTree = base.tree) := by
  have hHead' : c'.head ≠ .unreadable := by rwa [h.rest]
  have hIndex : c'.index = .ofTree base.tree := by rw [h.rest]
  refine status_of_held hHead' hIndex fun path content hContent => ?_
  rw [h.file, if_neg (by simp [hContent]), hContent]

/-- A switch of files without changes makes the files and the index those of its target. -/
theorem entered_of_switch {report : StatusReport} (hStatus : c.status = .ok report) (hPending : report.pending = 0)
    (hSwitch : c.Switches c.headTree base.tree (.done c')) : Entered base c c' := by
  cases hSwitch with
  | @done work staged hConflicts hFree hSafe hWork hStaged =>
      have hSettled (path : TreePath) : c.index.staged.get? path = c.headTree.get? path ∧
          ∀ content, c.headTree.get? path = some content → c.work.get? path = some content :=
        staged_of_pending hStatus hPending (by simp [hConflicts])
      -- without pending changes the index is the old tree, so each path is staged as the new one has it
      have hIndex : staged = base.tree := by
        refine Tree.ext_get? fun path => ?_
        rw [hStaged, (hSettled path).1]
        split
        · assumption
        · rfl
      refine ⟨by rw [hIndex], fun path => ?_⟩
      dsimp only
      rw [hWork, afterSwitch]
      by_cases hSame : c.headTree.get? path = base.tree.get? path
      · rw [if_pos hSame]
        cases hContent : c.headTree.get? path with
        | none => rw [if_pos ⟨rfl, hSame.symm.trans hContent⟩]
        | some content =>
            rw [if_neg fun hNone => Option.some_ne_none content hNone.1, (hSettled path).2 content hContent,
              ← hSame, hContent]
      · rw [if_neg hSame, if_neg fun hNone => hSame (hNone.1.trans hNone.2.symm)]

/-- Where a fast-forward of files without changes breaks off, and what it leaves. -/
inductive Halts (branch : String) (base : Commit) (c : Checkout) : TransportError → Checkout → Prop
  | refused : Halts branch base c (.failed localChangesMessage) c
  | brokenOff {c' : Checkout} (hCause : c.isLocked ["index"] = true ∨ c.Obstructed c.headTree base.tree)
      (hRest : c' = { c with work := c'.work })
      (hFile : ∀ path, c'.work.get? path = c.work.get? path ∨ c'.work.get? path = base.tree.get? path) :
      Halts branch base c (failed "checkout") c'
  | unmoved {c' : Checkout} (hEntered : Entered base c c') (hRefs : c'.refs = c.refs)
      (hCause : c.isLocked (RefName.branch branch).path = true ∨ c.refs.clashes (.branch branch) = true) :
      Halts branch base c (failed "fast-forward") c'
  | unswitched {c' : Checkout} (hEntered : Entered base c c')
      (hRefs : c'.refs = c.refs.set (.branch branch) base) (hCause : c.isLocked ["HEAD"] = true) :
      Halts branch base c (failed "fast-forward") c'

namespace Halts

variable (h : Halts branch base c e c')

include h

theorem head : c'.head = c.head := by
  cases h with
  | refused => rfl
  | brokenOff hCause hRest => rw [hRest]
  | unmoved hEntered => rw [hEntered.rest]
  | unswitched hEntered => rw [hEntered.rest]

/-- Of the references at most the branch has moved. -/
theorem others {name : RefName} (hName : name ≠ .branch branch) : c'.refs.get? name = c.refs.get? name := by
  cases h with
  | refused => rfl
  | brokenOff hCause hRest => rw [hRest]
  | unmoved hEntered hRefs => rw [hRefs]
  | unswitched hEntered hRefs => rw [hRefs, Refs.get?_set, if_neg hName]

end Halts

/-- A fast-forward that fails stops at one of the points of `Halts`. -/
theorem halts {report : StatusReport} (hStatus : c.status = .ok report) (hPending : report.pending = 0)
    (h : c.fastForward branch base = (.error e, c')) : Halts branch base c e c' := by
  have hSwitches := c.switches c.headTree base.tree
  rw [fastForward] at h
  split at h
  · obtain ⟨hError, rfl⟩ := Prod.mk.inj h
    obtain rfl := Except.error.inj hError
    exact .refused
  · rename_i broken hSwitch
    obtain ⟨hError, rfl⟩ := Prod.mk.inj h
    obtain rfl := Except.error.inj hError
    obtain ⟨hCause, hRest, hFile⟩ := switch_eq_broken hSwitch
    exact .brokenOff hCause hRest hFile
  · rename_i switched hSwitch
    rw [hSwitch] at hSwitches
    have hEntered := entered_of_switch hStatus hPending hSwitches
    have hRest := hSwitches.rest
    cases hPoint : switched.within (·.point (.branch branch) base) with
    | none =>
        rw [hPoint] at h
        obtain ⟨hError, rfl⟩ := Prod.mk.inj h
        obtain rfl := Except.error.inj hError
        have hCause := Repository.point_eq_none_iff.1 (within_eq_none_iff.1 hPoint)
        rw [hRest] at hCause
        exact .unmoved hEntered (by rw [hRest]) hCause
    | some pointed =>
        obtain ⟨repo, hRepo, rfl⟩ := within_eq_some_iff.1 hPoint
        obtain ⟨-, -, rfl⟩ := Repository.point_eq_some_iff.1 hRepo
        rw [hPoint] at h
        dsimp only at h
        split at h
        · rename_i hMove
          obtain ⟨hError, rfl⟩ := Prod.mk.inj h
          obtain rfl := Except.error.inj hError
          have hCause := Repository.moveTo_eq_none_iff.1 (within_eq_none_iff.1 hMove)
          rw [hRest] at hCause
          refine .unswitched ⟨?_, hEntered.file⟩ (by rw [hRest]) hCause
          rw [hEntered.rest]
        · cases (Prod.mk.inj h).1

namespace Fetches

variable {fetched : Checkout} (h : Fetches reach remote c fetched)

include h

theorem entered (hEntered : Entered base fetched c') : Entered base c c' := by
  refine ⟨?_, fun path => ?_⟩
  · rw [hEntered.rest, h.rest]
  · rw [hEntered.file, h.headTree, h.rest]

theorem obstructed (hObstructed : fetched.Obstructed source target) : c.Obstructed source target := by
  rw [h.rest] at hObstructed
  exact hObstructed

/-- A branch that is in the way of another one was so before. -/
theorem clashed (hClash : fetched.refs.clashes (.branch branch) = true) :
    c.refs.clashes (.branch branch) = true := by
  cases hClear : c.refs.clashes (.branch branch) with
  | true => rfl
  | false => exact (h.clashes hClear).symm.trans hClash

end Fetches

/-- A pull on a branch that the remote is ahead of fails before it writes, or in the fast-forward. -/
theorem halts_of_pull {committer : Option Person} {report : StatusReport} (hHead : c.head = .branch branch)
    (hTip : c.refs.get? (.branch branch) = some tip) (hStatus : c.status = .ok report)
    (hPending : report.pending = 0)
    (hAhead : ∀ fetched base, c.fetch reach remote = (.ok (), fetched) →
      fetched.refs.get? (.tracking remote branch) = some base → tip.isAncestorOf base = true)
    (hPull : c.pull committer reach remote = (.error e, c')) :
    Fetches reach remote c c' ∨ ∃ fetched base, Fetches reach remote c fetched ∧
      fetched.refs.get? (.tracking remote branch) = some base ∧ Halts branch base fetched e c' := by
  have hPulls := c.pulls committer reach remote
  rw [hPull] at hPulls
  cases hPulls with
  | unable => exact .inl ⟨rfl, fun _ _ => rfl, fun _ => .inl⟩
  | unfetched hFetch => exact .inl (fetches hFetch)
  | @integrates branch' fetched tip' base result hBranch hFetch hTip' hBase hResult =>
      obtain rfl : branch = branch' := Head.branch.inj (hHead.symm.trans hBranch)
      have hFetches := fetches hFetch
      obtain rfl : tip = tip' := Option.some.inj
        ((Repository.headCommit?_of_branch hHead hTip).symm.trans (hFetches.headCommit?.symm.trans hTip'))
      have hAncestor := hAhead fetched base hFetch hBase
      refine .imp_right (fun hHalts => ⟨fetched, base, hFetches, hBase, hHalts⟩) ?_
      generalize hEq : (Except.error e, c') = result at hResult
      cases hResult with
      | upToDate => cases (Prod.mk.inj hEq).1
      | refused => exact .inl ((Prod.mk.inj hEq).2 ▸ hFetches)
      | rebases hReport hNothing hApart => cases hAncestor.symm.trans hApart
      | forwards => exact .inr (halts (hFetches.status.trans hStatus) hPending hEq.symm)

/-- A directory with a file of its own is to become a file: the checkout has taken away the other one by then. -/
example :
    let shared := Commit.on none (.record (Tree.empty.put ["d", "a"] "1".toUTF8) writer writer "a")
    let theirs := Commit.on (some shared) (.record (Tree.empty.put ["d"] "2".toUTF8) writer writer "d")
    let c := { standingAt shared with work := shared.tree.put ["d", "own"] "3".toUTF8 }
    let pulled := c.pull (some writer) (reachAt theirs) "origin"
    c.status.toOption = some ⟨0, 0, 1⟩ ∧ pulled.1.toOption = none ∧ pulled.2.index = c.index ∧
      pulled.2.work.paths = [["d", "own"]] := by
  decide +kernel

end VaultSync.Git.Checkout
