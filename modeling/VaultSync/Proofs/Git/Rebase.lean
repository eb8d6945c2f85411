import VaultSync.Git.Pull
import VaultSync.Proofs.Git.Fetch

/-! What the steps of a pull can do to a checkout. Every step is described once, with all its ways to end. -/
namespace VaultSync.Git

namespace Commit

/-- The merge of the change that a commit made into a tree. -/
def mergeInto (onto : String) (ours : Tree) (commit : Commit) : TreeMerge :=
  mergeTrees ⟨onto, commit.revision.summary⟩ (treeOf commit.parent?) ours commit.tree

/-- The revision of a commit, recorded again by somebody and with another tree. -/
def remade (committer : Person) (tree : Tree) (commit : Commit) : Revision :=
  { commit.revision with tree, committer }

end Commit

namespace Checkout

variable {c c' start : Checkout} {committer : Person} {onto branch : String} {tip base commit current : Commit}
  {commits : List Commit}

/-! ### Replaying a commit -/

/-- A merge touches no path that holds something that is not committed. -/
def Spares (c : Checkout) (merged : TreeMerge) : Prop :=
  ∀ p, merged.settled.get? p ≠ c.headTree.get? p ∨ p ∈ merged.conflicts.map (·.path) → c.isAtRisk p = false

/-- When the check before a replay finds nothing at risk, the merge spares what is not committed. -/
theorem spares_of_any {merged : TreeMerge}
    (h : (((Tree.unionPaths [c.headTree, merged.settled]).filter fun p =>
      merged.settled.get? p ≠ c.headTree.get? p) ++ merged.conflicts.map (·.path)).any c.isAtRisk = false) :
    c.Spares merged := by
  intro p hp
  rw [List.any_eq_false] at h
  refine Bool.eq_false_iff.2 (h p (List.mem_append.2 ?_))
  rcases hp with hChanged | hConflict
  · refine .inl (List.mem_filter.2 ⟨Tree.mem_unionPaths.2 ?_, decide_eq_true hChanged⟩)
    by_cases hSettled : merged.settled.get? p = none
    · exact ⟨c.headTree, by simp, fun hHead => hChanged (hSettled.trans hHead.symm)⟩
    · exact ⟨merged.settled, by simp, hSettled⟩
  · exact .inr hConflict

/-- How the replay of a commit ends that merges as said. -/
inductive Replays (committer : Person) (c : Checkout) (commit : Commit) (merged : TreeMerge) : Replayed → Prop
  | refused : Replays committer c commit merged (.broken "rebase" c)
  | brokenOff {c' : Checkout} (hSafe : c.Spares merged)
      (hSwitch : c.Switches c.headTree merged.settled (.broken c')) :
      Replays committer c commit merged (.broken "rebase" c')
  | stopped {switched : Checkout} {work : Tree} (hSafe : c.Spares merged)
      (hSwitch : c.Switches c.headTree merged.settled (.done switched)) (hConflicts : merged.conflicts ≠ [])
      (hShown : showConflicts switched.work merged.conflicts = (true, work)) :
      Replays committer c commit merged
        (.stopped { switched with work, index := ⟨merged.settled, merged.conflicts.map (·.path)⟩ })
  | unshown {switched : Checkout} {work : Tree} (hSafe : c.Spares merged)
      (hSwitch : c.Switches c.headTree merged.settled (.done switched))
      (hShown : showConflicts switched.work merged.conflicts = (false, work)) :
      Replays committer c commit merged (.broken "rebase" { c with work })
  | leftOut {switched : Checkout} (hSwitch : c.Switches c.headTree merged.settled (.done switched))
      (hClean : merged.conflicts = []) (hNothing : merged.settled = c.headTree) :
      Replays committer c commit merged (.applied switched)
  | recorded {switched c' : Checkout} (hSafe : c.Spares merged)
      (hSwitch : c.Switches c.headTree merged.settled (.done switched)) (hClean : merged.conflicts = [])
      (hChange : merged.settled ≠ c.headTree)
      (hAdvance : switched.within
        (·.advance (.on switched.headCommit? (commit.remade committer merged.settled))) = some c') :
      Replays committer c commit merged (.applied c')
  | unrecorded {switched : Checkout} (hSafe : c.Spares merged)
      (hSwitch : c.Switches c.headTree merged.settled (.done switched)) :
      Replays committer c commit merged (.broken "rebase commit" switched)

/-- Each run of `replay` ends in one of the ways of `Replays`. -/
theorem replays (committer : Person) (onto : String) (c : Checkout) (commit : Commit) :
    Replays committer c commit (commit.mergeInto onto c.headTree) (replay committer onto c commit) := by
  have hMerge : mergeTrees ⟨onto, commit.revision.summary⟩ (treeOf commit.parent?) c.headTree commit.tree =
      commit.mergeInto onto c.headTree := rfl
  rw [replay]
  simp only [hMerge]
  -- the merge stays a name: the steps read its files and conflicts and no more
  generalize commit.mergeInto onto c.headTree = merged
  have hSwitches := c.switches c.headTree merged.settled
  split
  · exact .refused
  · rename_i hRisk
    have hSafe : c.Spares merged := spares_of_any (Bool.not_eq_true _ ▸ hRisk)
    split
    · exact .refused
    · rename_i broken hSwitch
      rw [hSwitch] at hSwitches
      exact .brokenOff hSafe hSwitches
    · rename_i switched hSwitch
      rw [hSwitch] at hSwitches
      split
      · rename_i hConflicts
        rw [Bool.not_eq_true', List.isEmpty_eq_false_iff] at hConflicts
        split
        · rename_i work hShown
          exact .stopped hSafe hSwitches hConflicts hShown
        · rename_i work hShown
          exact .unshown hSafe hSwitches hShown
      · rename_i hClean
        rw [Bool.not_eq_true, Bool.not_eq_false', List.isEmpty_iff] at hClean
        split
        · rename_i hNothing
          exact .leftOut hSwitches hClean hNothing
        · rename_i hChange
          split
          · rename_i c' hAdvance
            exact .recorded hSafe hSwitches hClean hChange hAdvance
          · exact .unrecorded hSafe hSwitches

/-- What the replay of each commit keeps holds after the last one, or before the one that could not be
applied. -/
theorem replayAll_cases {P : Checkout → Prop} {replayed : Replayed}
    (h : replayAll committer onto c commits = replayed) (hStart : P c)
    (hStep : ∀ c commit c', commit ∈ commits → P c →
      Replays committer c commit (commit.mergeInto onto c.headTree) (.applied c') → P c') :
    (∃ c', replayed = .applied c' ∧ P c') ∨
      ∃ last commit, commit ∈ commits ∧ P last ∧
        Replays committer last commit (commit.mergeInto onto last.headTree) replayed ∧
          ∀ c', replayed ≠ .applied c' := by
  induction commits generalizing c with
  | nil => exact .inl ⟨c, h.symm, hStart⟩
  | cons commit commits ih =>
      have hReplays := replays committer onto c commit
      rw [replayAll] at h
      generalize replay committer onto c commit = first at h hReplays
      cases first with
      | applied c' =>
          have hNext : P c' := hStep c commit c' List.mem_cons_self hStart hReplays
          have hRest := ih h hNext fun c commit c' hMem => hStep c commit c' (List.mem_cons_of_mem _ hMem)
          refine hRest.imp_right ?_
          rintro ⟨last, failed, hMem, hLast⟩
          exact ⟨last, failed, List.mem_cons_of_mem _ hMem, hLast⟩
      | stopped c' => exact .inr ⟨c, commit, List.mem_cons_self, hStart, h ▸ hReplays, by simp [← h]⟩
      | broken step c' => exact .inr ⟨c, commit, List.mem_cons_self, hStart, h ▸ hReplays, by simp [← h]⟩

/-! ### Starting and finishing -/

/-- How going to the base of a rebase ends. -/
inductive Starts (branch : String) (tip base : Commit) (c : Checkout) :
    Except TransportError Unit × Checkout → Prop
  | refused {e : TransportError} : Starts branch tip base c (.error e, c)
  | brokenOff {e : TransportError} {c' : Checkout} (hSwitch : c.Switches c.headTree base.tree (.broken c')) :
      Starts branch tip base c (.error e, c')
  | unmoved {e : TransportError} {switched : Checkout}
      (hSwitch : c.Switches c.headTree base.tree (.done switched)) :
      Starts branch tip base c (.error e, switched)
  | started {switched : Checkout} (hIdle : c.isRebasing = false)
      (hSwitch : c.Switches c.headTree base.tree (.done switched)) (hFree : c.isLocked ["HEAD"] = false) :
      Starts branch tip base c
        (.ok (), { switched with head := .detached base, rebase := some ⟨branch, tip⟩ })

variable (branch tip base c) in
/-- Each run of `startRebase` ends in one of the ways of `Starts`. -/
theorem starts : Starts branch tip base c (c.startRebase branch tip base) := by
  have hSwitches := c.switches c.headTree base.tree
  rw [startRebase]
  split
  · exact .refused
  · rename_i hIdle
    have hIdle : c.isRebasing = false := by
      rw [Bool.or_eq_true, not_or] at hIdle
      exact Bool.eq_false_iff.2 hIdle.1
    split
    · exact .refused
    · rename_i broken hSwitch
      exact .brokenOff (hSwitch ▸ hSwitches)
    · rename_i switched hSwitch
      rw [hSwitch] at hSwitches
      split
      · exact .unmoved hSwitches
      · rename_i moved hMove
        obtain ⟨repo, hRepo, rfl⟩ := within_eq_some_iff.1 hMove
        obtain ⟨hFree, rfl⟩ := Repository.moveTo_eq_some_iff.1 hRepo
        rw [hSwitches.rest] at hFree
        exact @Starts.started branch tip base c switched hIdle hSwitches hFree

/-- In the middle of a rebase of a branch a checkout stands at a commit of its own. Otherwise only its files
and its index have changed. -/
structure Underway (start : Checkout) (branch : String) (tip current : Commit) (c : Checkout) : Prop where
  rest : c = { start with
    head := .detached current, rebase := some ⟨branch, tip⟩, index := c.index, work := c.work }

theorem Starts.underway (h : Starts branch tip base c (.ok (), c')) : Underway c branch tip base c' := by
  cases h with
  | started hIdle hSwitch hFree => exact ⟨by rw [hSwitch.rest]⟩

/-- A rebase starts only where no conflict is open. -/
theorem Starts.settled (h : Starts branch tip base c (.ok (), c')) : c.index.conflicts = [] := by
  cases h with
  | started hIdle hSwitch hFree => exact hSwitch.settled Switched.noConfusion

/-- A rebase starts only when none is in progress, and not where something cannot be written. -/
theorem Starts.idle (h : Starts branch tip base c (.ok (), c')) :
    c.isRebasing = false ∧ c.isLocked ["HEAD"] = false ∧ c.isLocked ["index"] = false := by
  cases h with
  | started hIdle hSwitch hFree =>
      cases hSwitch with
      | done hConflicts hIndex => exact ⟨hIdle, hFree, hIndex⟩

namespace Underway

variable {merged : TreeMerge}

theorem headCommit? (h : Underway start branch tip current c) : c.headCommit? = some current := by
  rw [h.rest]
  rfl

theorem headTree (h : Underway start branch tip current c) : c.headTree = current.tree :=
  Repository.headTree_of_headCommit? h.headCommit?

/-- A replayed commit is left out, or the checkout stands at it afterwards. -/
theorem applied (h : Underway start branch tip current c)
    (hReplay : Replays committer c commit merged (.applied c')) :
    (merged.settled = current.tree ∧ Underway start branch tip current c') ∨
      (merged.settled ≠ current.tree ∧
        Underway start branch tip (.on (some current) (commit.remade committer merged.settled)) c') := by
  cases hReplay with
  | leftOut hSwitch hClean hNothing =>
      refine .inl ⟨hNothing.trans h.headTree, ⟨?_⟩⟩
      rw [hSwitch.rest, h.rest]
  | @recorded switched c' hSafe hSwitch hClean hChange hAdvance =>
      refine .inr ⟨h.headTree ▸ hChange, ⟨?_⟩⟩
      have hSwitched : Underway start branch tip current switched := ⟨by rw [hSwitch.rest, h.rest]⟩
      have hHead : switched.head = .detached current := by rw [hSwitched.rest]
      obtain ⟨repo, hRepo, rfl⟩ := within_eq_some_iff.1 hAdvance
      rw [Repository.advance, hHead, hSwitched.headCommit?] at hRepo
      obtain ⟨-, rfl⟩ := Repository.moveTo_eq_some_iff.1 hRepo
      rw [hSwitched.rest]

/-- A replay that stops leaves the rebase at the commit reached before. -/
theorem stopped (h : Underway start branch tip current c)
    (hReplay : Replays committer c commit merged (.stopped c')) : Underway start branch tip current c' := by
  cases hReplay with
  | stopped hSafe hSwitch hConflicts hShown => exact ⟨by rw [hSwitch.rest, h.rest]⟩

end Underway

/-- The rebase is underway as long as its commits are replayed, also when that stops. -/
theorem Starts.replayed {started : Checkout} {replayed : Replayed}
    (hStarts : Starts branch tip base c (.ok (), started))
    (hReplayed : replayAll committer onto started commits = replayed)
    (hEnd : replayed = .applied c' ∨ replayed = .stopped c') : ∃ current, Underway c branch tip current c' := by
  have hStart : ∃ current, Underway c branch tip current started := ⟨base, hStarts.underway⟩
  have hStep (next : Checkout) (commit : Commit) (next' : Checkout) (_ : commit ∈ commits)
      (hNext : ∃ current, Underway c branch tip current next)
      (hReplay : Replays committer next commit (commit.mergeInto onto next.headTree) (.applied next')) :
      ∃ current, Underway c branch tip current next' := by
    obtain ⟨current, hUnderway⟩ := hNext
    rcases hUnderway.applied hReplay with ⟨-, hApplied⟩ | ⟨-, hApplied⟩
    · exact ⟨_, hApplied⟩
    · exact ⟨_, hApplied⟩
  rcases replayAll_cases hReplayed hStart hStep with
    ⟨last, rfl, hLast⟩ | ⟨last, commit, -, ⟨current, hLast⟩, hReplay, hNotApplied⟩
  · rcases hEnd with hEnd | hEnd
    · exact Replayed.applied.inj hEnd ▸ hLast
    · cases hEnd
  · rcases hEnd with rfl | rfl
    · exact absurd rfl (hNotApplied c')
    · exact ⟨current, hLast.stopped hReplay⟩

/-- The end of a rebase keeps the files. When it succeeds the branch is where the repository was. -/
theorem finishRebase_cases (branch : String) (c : Checkout) :
    (∃ e c', c.finishRebase branch = (.error e, c') ∧ c'.work = c.work) ∨
      ∃ commit, c.headCommit? = some commit ∧ c.finishRebase branch = (.ok .ok, { c with
        head := .branch branch, refs := c.refs.set (.branch branch) commit, rebase := none }) := by
  rw [finishRebase]
  cases hCommit : c.headCommit? with
  | none => exact .inl ⟨_, c, rfl, rfl⟩
  | some commit =>
      cases hPoint : c.within (·.point (.branch branch) commit) with
      | none => 
          simp only [hPoint]
          exact .inl ⟨_, c, rfl, rfl⟩
      | some pointed =>
          obtain ⟨repo, hRepo, rfl⟩ := within_eq_some_iff.1 hPoint
          obtain ⟨-, -, rfl⟩ := Repository.point_eq_some_iff.1 hRepo
          simp only [hPoint]
          split
          · exact .inl ⟨_, _, rfl, rfl⟩
          · rename_i moved hMove
            obtain ⟨repo, hRepo, rfl⟩ := within_eq_some_iff.1 hMove
            obtain ⟨-, rfl⟩ := Repository.moveTo_eq_some_iff.1 hRepo
            exact .inr ⟨commit, rfl, rfl⟩

/-- How a rebase ends. -/
inductive Rebases (committer : Option Person) (branch onto : String) (tip base : Commit) (c : Checkout) :
    Except TransportError RebaseStatus × Checkout → Prop
  | refused {e : TransportError} : Rebases committer branch onto tip base c (.error e, c)
  | unstarted {e : TransportError} {c' : Checkout} (hStarts : Starts branch tip base c (.error e, c')) :
      Rebases committer branch onto tip base c (.error e, c')
  | finished {person : Person} {started replayed : Checkout} (hPerson : committer = some person)
      (hStarts : Starts branch tip base c (.ok (), started))
      (hReplayed : replayAll person onto started (tip.ahead base) = .applied replayed) :
      Rebases committer branch onto tip base c (replayed.finishRebase branch)
  | stopped {person : Person} {started stopped : Checkout} (hPerson : committer = some person)
      (hStarts : Starts branch tip base c (.ok (), started))
      (hReplayed : replayAll person onto started (tip.ahead base) = .stopped stopped) :
      Rebases committer branch onto tip base c (.ok .stopped, stopped)
  | broken {person : Person} {step : String} {started broken : Checkout} (hPerson : committer = some person)
      (hStarts : Starts branch tip base c (.ok (), started))
      (hReplayed : replayAll person onto started (tip.ahead base) = .broken step broken) :
      Rebases committer branch onto tip base c (.error (failed step), broken)

/-- Each run of `rebaseOnto` ends in one of the ways of `Rebases`. -/
theorem rebases (committer : Option Person) (branch onto : String) (tip base : Commit) (c : Checkout) :
    Rebases committer branch onto tip base c (c.rebaseOnto committer branch onto tip base) := by
  cases committer with
  | none => exact .refused
  | some person =>
      have hStarts := c.starts branch tip base
      rw [rebaseOnto]
      split
      · rename_i e c' hStart
        exact .unstarted (hStart ▸ hStarts)
      · rename_i started hStart
        rw [hStart] at hStarts
        split
        · rename_i stopped hReplayed
          exact .stopped rfl hStarts hReplayed
        · rename_i step broken hReplayed
          exact .broken rfl hStarts hReplayed
        · rename_i replayed hReplayed
          exact .finished rfl hStarts hReplayed

/-- A rebase without an error has replayed all commits, and the branch stands where the last one left it; or
it has stopped and is underway, with the branch as it was. -/
theorem Rebases.of_ok {committer : Option Person} {status : RebaseStatus}
    (h : Rebases committer branch onto tip base c (.ok status, c')) :
    ∃ started, Starts branch tip base c (.ok (), started) ∧
      ((status = .ok ∧ ∃ person replayed new, committer = some person ∧
        replayAll person onto started (tip.ahead base) = .applied replayed ∧ replayed.headCommit? = some new ∧
        c' = { replayed with
          head := .branch branch, refs := replayed.refs.set (.branch branch) new, rebase := none }) ∨
      (status = .stopped ∧ ∃ current, Underway c branch tip current c')) := by
  generalize hResult : (Except.ok status, c') = result at h
  cases h with
  | refused => cases hResult
  | unstarted => cases hResult
  | broken => cases hResult
  | @finished person started replayed hPerson hStarts hReplayed =>
      rcases finishRebase_cases branch replayed with ⟨e, finished, hFinish, -⟩ | ⟨new, hNew, hFinish⟩
      · rw [hFinish] at hResult
        cases hResult
      · rw [hFinish] at hResult
        obtain ⟨hStatus, rfl⟩ := Prod.mk.inj hResult
        obtain rfl := Except.ok.inj hStatus
        exact ⟨started, hStarts, .inl ⟨rfl, person, replayed, new, hPerson, hReplayed, hNew, rfl⟩⟩
  | @stopped person started stopped hPerson hStarts hReplayed =>
      obtain ⟨hStatus, rfl⟩ := Prod.mk.inj hResult
      exact ⟨started, hStarts, .inr ⟨Except.ok.inj hStatus, hStarts.replayed hReplayed (.inr rfl)⟩⟩

/-! ### Moving a branch ahead -/

/-- How a fast-forward ends. -/
inductive Forwards (branch : String) (base : Commit) (c : Checkout) :
    Except TransportError RebaseStatus × Checkout → Prop
  | refused {e : TransportError} : Forwards branch base c (.error e, c)
  | brokenOff {e : TransportError} {c' : Checkout} (hSwitch : c.Switches c.headTree base.tree (.broken c')) :
      Forwards branch base c (.error e, c')
  | unmoved {e : TransportError} {switched c' : Checkout}
      (hSwitch : c.Switches c.headTree base.tree (.done switched)) (hWork : c'.work = switched.work) :
      Forwards branch base c (.error e, c')
  | done {switched : Checkout} (hSwitch : c.Switches c.headTree base.tree (.done switched)) :
      Forwards branch base c (.ok .fastForward,
        { switched with head := .branch branch, refs := switched.refs.set (.branch branch) base })

/-- A fast-forward that succeeds has switched the work tree and moved the branch. -/
theorem Forwards.of_ok {status : RebaseStatus} (h : Forwards branch base c (.ok status, c')) :
    status = .fastForward ∧ ∃ switched, c.Switches c.headTree base.tree (.done switched) ∧ c' = { switched with
      head := .branch branch, refs := switched.refs.set (.branch branch) base } := by
  cases h with
  | done hSwitch => exact ⟨rfl, _, hSwitch, rfl⟩

variable (branch base c) in
/-- Each run of `fastForward` ends in one of the ways of `Forwards`. -/
theorem forwards : Forwards branch base c (c.fastForward branch base) := by
  have hSwitches := c.switches c.headTree base.tree
  rw [fastForward]
  split
  · exact .refused
  · rename_i broken hSwitch
    exact .brokenOff (hSwitch ▸ hSwitches)
  · rename_i switched hSwitch
    rw [hSwitch] at hSwitches
    -- the branch is moved before `HEAD`, and either of them may be locked
    cases hPoint : switched.within (·.point (.branch branch) base) with
    | none => exact .unmoved hSwitches rfl
    | some pointed =>
        obtain ⟨repo, hRepo, rfl⟩ := within_eq_some_iff.1 hPoint
        obtain ⟨-, -, rfl⟩ := Repository.point_eq_some_iff.1 hRepo
        simp only
        split
        · exact .unmoved hSwitches rfl
        · rename_i moved hMove
          obtain ⟨repo, hRepo, rfl⟩ := within_eq_some_iff.1 hMove
          obtain ⟨-, rfl⟩ := Repository.moveTo_eq_some_iff.1 hRepo
          exact .done hSwitches

/-! ### Pulling -/

/-- How bringing in a commit of the remote ends. -/
inductive Integrates (committer : Option Person) (branch onto : String) (tip base : Commit) (c : Checkout) :
    Except TransportError RebaseStatus × Checkout → Prop
  | upToDate (h : base.isAncestorOf tip = true) :
      Integrates committer branch onto tip base c (.ok .upToDate, c)
  | refused {e : TransportError} : Integrates committer branch onto tip base c (.error e, c)
  | forwards {report : StatusReport} (hStatus : c.status = .ok report) (hPending : report.pending = 0)
      (h : tip.isAncestorOf base = true) :
      Integrates committer branch onto tip base c (c.fastForward branch base)
  | rebases {report : StatusReport} (hStatus : c.status = .ok report) (hPending : report.pending = 0)
      (h : tip.isAncestorOf base = false) :
      Integrates committer branch onto tip base c (c.rebaseOnto committer branch onto tip base)

/-- Each run of `integrate` ends in one of the ways of `Integrates`. -/
theorem integrates (committer : Option Person) (branch onto : String) (tip base : Commit) (c : Checkout) :
    Integrates committer branch onto tip base c (c.integrate committer branch onto tip base) := by
  rw [integrate]
  split
  · rename_i h
    exact .upToDate h
  · cases hStatus : c.status with
    | error e => exact .refused
    | ok report =>
        simp only
        split
        · exact .refused
        · rename_i hPending
          rw [ne_eq, Decidable.not_not] at hPending
          split
          · rename_i h
            exact .forwards hStatus hPending h
          · rename_i h
            exact .rebases hStatus hPending (Bool.eq_false_iff.2 h)

/-- How a pull ends. -/
inductive Pulls (committer : Option Person) (reach : Reach) (remote : String) (c : Checkout) :
    Except TransportError RebaseStatus × Checkout → Prop
  | unable {e : TransportError} : Pulls committer reach remote c (.error e, c)
  | unfetched {e : TransportError} {fetched : Checkout}
      (hFetch : c.fetch reach remote = (.error e, fetched)) :
      Pulls committer reach remote c (.error e, fetched)
  | alone {branch : String} {fetched : Checkout} (hHead : c.head = .branch branch)
      (hFetch : c.fetch reach remote = (.ok (), fetched))
      (hNone : fetched.headCommit? = none ∨ fetched.refs.get? (.tracking remote branch) = none) :
      Pulls committer reach remote c (.ok .upToDate, fetched)
  | integrates {branch : String} {fetched : Checkout} {tip base : Commit}
      {result : Except TransportError RebaseStatus × Checkout} (hHead : c.head = .branch branch)
      (hFetch : c.fetch reach remote = (.ok (), fetched)) (hTip : fetched.headCommit? = some tip)
      (hBase : fetched.refs.get? (.tracking remote branch) = some base)
      (hResult : fetched.Integrates committer branch (RefName.tracking remote branch).text tip base result) :
      Pulls committer reach remote c result

theorem currentBranch_eq_ok (h : c.currentBranch = .ok branch) : c.head = .branch branch := by
  rw [currentBranch] at h
  split at h
  · simp at h
  · simp at h
  · rename_i name hHead
    split at h
    · rw [hHead, Except.ok.inj h]
    · simp at h

theorem tip_of_currentBranch (h : c.currentBranch = .ok branch) :
    ∃ tip, c.refs.get? (.branch branch) = some tip := by
  have hHead := currentBranch_eq_ok h
  rw [currentBranch, hHead] at h
  dsimp only at h
  split at h
  · rename_i hSome
    rw [Repository.headCommit?, hHead] at hSome
    exact Option.isSome_iff_exists.1 hSome
  · cases h

theorem currentBranch_of_tip (hHead : c.head = .branch branch)
    (hTip : c.refs.get? (.branch branch) = some tip) : c.currentBranch = .ok branch := by
  simp [currentBranch, hHead, Repository.headCommit?_of_branch hHead hTip]

theorem currentBranch_of_pull {committer : Option Person} {reach : Reach} {remote : String}
    {status : RebaseStatus} (h : c.pull committer reach remote = (.ok status, c')) :
    ∃ branch, c.currentBranch = .ok branch := by
  rw [pull] at h
  cases hBranch : c.currentBranch with
  | error e =>
      rw [hBranch] at h
      cases (Prod.mk.inj h).1
  | ok branch => exact ⟨branch, rfl⟩

/-- Each run of `pull` ends in one of the ways of `Pulls`. -/
theorem pulls (committer : Option Person) (reach : Reach) (remote : String) (c : Checkout) :
    Pulls committer reach remote c (c.pull committer reach remote) := by
  rw [pull]
  cases hBranch : c.currentBranch with
  | error e => exact .unable
  | ok branch =>
      have hHead := currentBranch_eq_ok hBranch
      simp only
      split
      · rename_i e fetched hFetch
        exact .unfetched hFetch
      · rename_i fetched hFetch
        split
        · rename_i tip base hTip hBase
          exact .integrates hHead hFetch hTip hBase (integrates ..)
        · rename_i base hUnborn hBase
          -- a branch without a commit is refused before the fetch
          obtain ⟨tip, hTip⟩ := tip_of_currentBranch hBranch
          rw [(fetches hFetch).headCommit?, Repository.headCommit?_of_branch hHead hTip] at hUnborn
          cases hUnborn
        · rename_i hNone
          exact .alone hHead hFetch (.inr hNone)

/-- What a pull without an error makes of a checkout that has fetched and whose branch is at a tip. -/
inductive Pulled (committer : Option Person) (remote branch : String) (tip : Commit) (c : Checkout) :
    RebaseStatus → Checkout → Prop
  | upToDate
      (hKnown : ∀ base, c.refs.get? (.tracking remote branch) = some base → base.isAncestorOf tip = true) :
      Pulled committer remote branch tip c .upToDate c
  | fastForward {base : Commit} {switched : Checkout}
      (hBase : c.refs.get? (.tracking remote branch) = some base)
      (hAncestor : tip.isAncestorOf base = true) (hSwitch : c.Switches c.headTree base.tree (.done switched)) :
      Pulled committer remote branch tip c .fastForward { switched with
        head := .branch branch, refs := switched.refs.set (.branch branch) base }
  | rebased {base new : Commit} {person : Person} {started replayed : Checkout}
      (hBase : c.refs.get? (.tracking remote branch) = some base) (hPerson : committer = some person)
      (hStarts : Starts branch tip base c (.ok (), started))
      (hReplayed : replayAll person (RefName.tracking remote branch).text started (tip.ahead base) =
        .applied replayed)
      (hNew : replayed.headCommit? = some new) :
      Pulled committer remote branch tip c .ok { replayed with
        head := .branch branch, refs := replayed.refs.set (.branch branch) new, rebase := none }
  | stopped {base current : Commit} {report : StatusReport} {started stopped : Checkout}
      (hReport : c.status = .ok report) (hPending : report.pending = 0)
      (hStarts : Starts branch tip base c (.ok (), started))
      (hUnderway : Underway c branch tip current stopped) :
      Pulled committer remote branch tip c .stopped stopped

/-- A pull that succeeds has fetched, and integrated the tracking branch that it fetched. -/
theorem pulled_of_ok {committer : Option Person} {reach : Reach} {remote : String} {status : RebaseStatus}
    (hHead : c.head = .branch branch) (hTip : c.refs.get? (.branch branch) = some tip)
    (hPull : c.pull committer reach remote = (.ok status, c')) :
    ∃ fetched, c.fetch reach remote = (.ok (), fetched) ∧
      Pulled committer remote branch tip fetched status c' := by
  have hPulls := c.pulls committer reach remote
  rw [hPull] at hPulls
  have hSeen {fetched : Checkout} (hFetch : c.fetch reach remote = (.ok (), fetched)) :
      fetched.headCommit? = some tip :=
    (fetches hFetch).headCommit?.trans (Repository.headCommit?_of_branch hHead hTip)
  cases hPulls with
  | @alone branch' _ hBranch hFetch hNone =>
      obtain rfl : branch = branch' := Head.branch.inj (hHead.symm.trans hBranch)
      refine ⟨c', hFetch, .upToDate fun base hBase => ?_⟩
      rcases hNone with hNone | hNone
      · simp [hSeen hFetch] at hNone
      · simp [hBase] at hNone
  | @integrates branch' fetched tip' base result hBranch hFetch hTip' hBase hResult =>
      obtain rfl : branch = branch' := Head.branch.inj (hHead.symm.trans hBranch)
      obtain rfl : tip = tip' := Option.some.inj ((hSeen hFetch).symm.trans hTip')
      refine ⟨fetched, hFetch, ?_⟩
      -- the equation is kept apart, so that the ways of a failed integration drop out by their result
      generalize hEq : (Except.ok status, c') = result at hResult
      cases hResult with
      | refused => cases hEq
      | upToDate hAncestor =>
          obtain ⟨hOk, rfl⟩ := Prod.mk.inj hEq
          obtain rfl := Except.ok.inj hOk
          exact .upToDate fun base' hBase' => Option.some.inj (hBase.symm.trans hBase') ▸ hAncestor
      | forwards hReport hNothing hAncestor =>
          have hForward := fetched.forwards branch base
          rw [← hEq] at hForward
          obtain ⟨rfl, switched, hSwitch, rfl⟩ := hForward.of_ok
          exact .fastForward hBase hAncestor hSwitch
      | rebases hReport hNothing hAncestor =>
          have hRebase := fetched.rebases committer branch (RefName.tracking remote branch).text tip base
          rw [← hEq] at hRebase
          obtain ⟨started, hStarts, ⟨rfl, person, replayed, new, hPerson, hReplayed, hNew, rfl⟩ |
            ⟨rfl, current, hUnderway⟩⟩ := hRebase.of_ok
          · exact .rebased hBase hPerson hStarts hReplayed hNew
          · exact .stopped hReport hNothing hStarts hUnderway

/-- A pull that does not stop keeps the checkout on its branch, and every reference but that branch. -/
theorem Pulled.frame {committer : Option Person} {remote : String} {status : RebaseStatus}
    (h : Pulled committer remote branch tip c status c') (hHead : c.head = .branch branch)
    (hStatus : status ≠ .stopped) : c'.head = .branch branch ∧ c'.remotes = c.remotes ∧
      ∀ name, name ≠ .branch branch → c'.refs.get? name = c.refs.get? name := by
  cases h with
  | upToDate => exact ⟨hHead, rfl, fun _ _ => rfl⟩
  | fastForward hBase hAncestor hSwitch =>
      refine ⟨rfl, by rw [hSwitch.rest], fun name hName => ?_⟩
      rw [Refs.get?_set, if_neg hName, hSwitch.rest]
  | rebased hBase hPerson hStarts hReplayed hNew =>
      obtain ⟨current, hUnderway⟩ := hStarts.replayed hReplayed (.inl rfl)
      refine ⟨rfl, by rw [hUnderway.rest], fun name hName => ?_⟩
      rw [Refs.get?_set, if_neg hName, hUnderway.rest]
  | stopped => exact absurd rfl hStatus

end Checkout

end VaultSync.Git
