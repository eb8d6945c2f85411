import VaultSync.Proofs.Git.Pull
import VaultSync.Proofs.Sync.Completed

/-! A whole sync of a checkout whose changes are its own. It is completed, and leaves the checkout, its
branch and the origin's branch at one commit with the changes of both sides. -/
namespace VaultSync

/-! ### Runs without a failure -/

/-- Nothing has failed yet and nothing has ended the run. -/
structure Progress.Clear (progress : Progress) : Prop where
  failure : progress.failure = none
  halted : progress.halted = false

namespace Progress.Clear

variable {progress : Progress}

theorem start : Progress.start.Clear :=
  ⟨rfl, rfl⟩

theorem skipped (h : progress.Clear) : Progress.Clear { progress with commitSkipped := true } :=
  ⟨h.failure, h.halted⟩

theorem after (h : progress.Clear) {call : Call} (hFailures : call.failures = [])
    (hStops : call.stops = false) : (progress.after call).Clear := by
  rw [Progress.after, Progress.absorb_eq]
  constructor
  · simp [hFailures, h.failure]
  · simp [hStops, h.halted]

end Progress.Clear

namespace Git

open Repository (originName Stands Serves)

namespace Workspace

/-- A sync of a checkout with where it came from. -/
def sync (author : Person) (message : String) (credential : Credential) (w : Workspace) :
    SyncOutcome × Workspace :=
  (backend (some author)).execute .silent (Operation.sync originName message) credential w

variable {link : Link} {tip seen base : Commit} {staged : Tree} {w : Workspace} {c : Checkout}
  {origin : Repository} {author : Option Person}

theorem perform_addAll {result : Except TransportError Unit} (h : w.checkout.addAll = (result, c)) :
    w.perform author (.plain .addAll) = (result, { w with checkout := c }) := by
  simp [perform, performPlain, locally, h]

theorem perform_status {result : Except TransportError StatusReport} (h : w.checkout.status = result) :
    w.perform author .status = (result, w) := by
  simp [perform, locally, h]

theorem perform_commit {result : Except TransportError Unit} {message : String}
    (h : w.checkout.commit author message = (result, c)) :
    w.perform author (.commit message) = (result, { w with checkout := c }) := by
  simp [perform, locally, h]

theorem perform_pull {result : Except TransportError RebaseStatus} {remote : String}
    (h : w.checkout.pull author w.reach remote = (result, c)) :
    w.perform author (.pull remote) = (result, { w with checkout := c }) := by
  simp [perform, locally, h]

theorem perform_push {w' : Workspace} {result : Except TransportError (List RefUpdate)} {remote : String}
    {branch : Option String} {force : Bool} (h : w.push remote branch force = (result, w')) :
    w.perform author (.push remote branch force) = (result, w') := h

theorem backend_perform {w' : Workspace} {command : Command} {value : command.Result}
    (h : w.perform author command = (.ok value, w')) (credential : Credential) :
    (backend author).perform command credential w = (.ok value, w') := by
  simp [backend, h, Reply.ofExcept]

theorem backend_perform_error {w' : Workspace} {command : Command} {error : TransportError}
    (h : w.perform author command = (.error error, w')) (credential : Credential) :
    (backend author).perform command credential w = (.error error, w') := by
  simp [backend, h, Reply.ofExcept]

variable {credential : Credential} {progress : Progress}

/-- The last two commands of a sync, when the pull ends on top of the origin's branch. -/
theorem steps_of_pull (h : progress.Clear) {status : RebaseStatus} {new : Commit}
    (hPull : w.checkout.pull author w.reach originName = (.ok status, c)) (hStatus : status ≠ .stopped)
    (hStands : c.Stands link new base new.tree) (hReach : w.reach link.url = .ok origin)
    (hServes : origin.Serves link base) (hAncestor : base.isAncestorOf new = true) :
    ∃ progress' repo origin' reach',
      (backend author).steps credential [.pull originName, .push originName none false] progress w =
        (progress', ⟨{ c with toRepository := repo }, reach'⟩) ∧ progress'.Clear ∧
      repo.Stands link new new new.tree ∧ reach' link.url = .ok origin' ∧ origin'.Serves link new := by
  have hPullClear : (progress.after ⟨.pull originName, some credential, .ok status⟩).Clear :=
    h.after (by simp [Call.failures, hStatus]) (by simp [Call.stops, Call.rebaseStatus?, hStatus])
  obtain ⟨updates, repo, origin', reach', hPush, hErrors, hStands', hReach', hServes'⟩ :=
    push_of_stands ⟨c, w.reach⟩ hStands hReach hServes hAncestor
  have hPushClear : ((progress.after ⟨.pull originName, some credential, .ok status⟩).after
      ⟨.push originName none false, some credential, .ok updates⟩).Clear :=
    hPullClear.after (by simp [Call.failures, hErrors]) (by simp [Call.stops, Call.rebaseStatus?])
  refine ⟨_, repo, origin', reach', ?_, hPushClear, hStands', hReach', hServes'⟩
  rw [Backend.steps_of_perform h.halted rfl (backend_perform (perform_pull hPull) credential)]
  exact Backend.steps_of_perform hPullClear.halted rfl (backend_perform (perform_push hPush) credential)

/-- Where a checkout and its origin are after a sync: at one commit, whose files the checkout has. -/
structure SyncedAt (link : Link) (new : Commit) (w : Workspace) : Prop where
  stands : w.checkout.Stands link new new new.tree
  work : w.checkout.work = new.tree
  serves : ∃ origin, w.reach link.url = .ok origin ∧ origin.Serves link new

/-- Once its first steps are done, a sync that pulls onto the published commit completes, with the result
published. -/
theorem SyncedAt.of_steps {new : Commit} (h : progress.Clear) {status : RebaseStatus} {message : String}
    {author : Person} {start : Workspace}
    (hSteps : (backend (some author)).steps credential (Operation.sync originName message).steps .start
      start = (backend (some author)).steps credential [.pull originName, .push originName none false]
        progress w)
    (hPull : w.checkout.pull (some author) w.reach originName = (.ok status, c))
    (hStatus : status ≠ .stopped) (hStands : c.Stands link new base new.tree) (hWork : c.work = new.tree)
    (hReach : w.reach link.url = .ok origin) (hServes : origin.Serves link base)
    (hAncestor : base.isAncestorOf new = true) :
    ∃ report w', start.sync author message credential = (.completed report, w') ∧
      w'.SyncedAt link new := by
  obtain ⟨progress', repo, origin', reach', hRest, hClear, hStands', hReach', hServes'⟩ :=
    steps_of_pull h hPull hStatus hStands hReach hServes hAncestor
  obtain ⟨report, hExecute⟩ := Backend.execute_of_clear .silent (hSteps.trans hRest) hClear.failure
  exact ⟨report, _, hExecute, hStands', hWork, origin', hReach', hServes'⟩

variable (w) in
/-- A sync stages all files and counts what there is to record, and so makes a commit exactly when the
files are not those of the last one. -/
theorem steps_of_staged (h : w.checkout.Stands link tip seen staged) (hRules : w.checkout.work.Ruleless)
    (author : Option Person) (credential : Credential) :
    ∃ counted : Progress, counted.Clear ∧
      (∀ message, counted.skips (.commit message) = true ↔ w.checkout.work = tip.tree) ∧
      ∀ rest, (backend author).steps credential (.plain .addAll :: .status :: rest) .start w =
        (backend author).steps credential rest counted ⟨w.checkout.withStaged, w.reach⟩ := by
  have hStaged := Checkout.withStaged_stands h
  have hOnBranch : w.checkout.withStaged.head ≠ .unreadable := by
    rw [hStaged.head]
    exact Head.noConfusion
  obtain ⟨report, hReport, hPending⟩ := Checkout.status_of_staged hOnBranch hStaged.index
  rw [hStaged.headTree] at hPending
  have hAdd : (backend author).perform (.plain .addAll) credential w =
      (.ok (), ⟨w.checkout.withStaged, w.reach⟩) :=
    backend_perform (perform_addAll (Checkout.addAll_of_stands h hRules)) credential
  have hStatus : (backend author).perform .status credential ⟨w.checkout.withStaged, w.reach⟩ =
      (.ok report, ⟨w.checkout.withStaged, w.reach⟩) := backend_perform (perform_status hReport) credential
  have hAdded : (Progress.start.after ⟨.plain .addAll, some credential, .ok ()⟩).Clear :=
    Progress.Clear.start.after rfl rfl
  have hCounted : ((Progress.start.after ⟨.plain .addAll, some credential, .ok ()⟩).after
      ⟨.status, none, .ok report⟩).Clear := hAdded.after rfl rfl
  refine ⟨_, hCounted, fun message => ?_, fun rest => ?_⟩
  · simp only [Progress.skips, Progress.after, Progress.absorb, Option.some.injEq, decide_eq_true_iff]
    exact hPending.trans eq_comm
  · rw [Backend.steps_of_perform rfl rfl hAdd]
    exact Backend.steps_of_perform hAdded.halted rfl hStatus

variable (w) in
/-- A sync with nothing to record leads to the origin's commit. -/
theorem sync_of_unchanged (h : w.checkout.Stands link tip seen staged) (hWork : w.checkout.work = tip.tree)
    (hRules : w.checkout.work.Ruleless) (hReach : w.reach link.url = .ok origin)
    (hServes : origin.Serves link base) (hShared : tip.isAncestorOf base = true)
    (hBase : base.tree.Coherent) (author : Person) (message : String) (credential : Credential) :
    ∃ report w', w.sync author message credential = (.completed report, w') ∧ w'.SyncedAt link base := by
  obtain ⟨counted, hCounted, hSkips, hSteps⟩ := w.steps_of_staged h hRules (some author) credential
  have hStaged := Checkout.withStaged_stands h
  rw [hWork] at hStaged
  obtain ⟨c', status, hPull, hNotStopped, hStands, hFiles⟩ :=
    Checkout.pull_of_behind hStaged hWork hReach hServes hShared hBase (some author)
  exact SyncedAt.of_steps hCounted.skipped
    ((hSteps _).trans (Backend.steps_of_skips hCounted.halted ((hSkips message).2 hWork))) hPull hNotStopped
    hStands hFiles hReach hServes (Commit.isAncestorOf_refl base)

variable (w) in
/-- A sync with something to record puts one commit with it on top of the origin's, unless the origin has
the same change already. -/
theorem sync_of_changed (h : w.checkout.Stands link tip seen staged) (hWork : w.checkout.work ≠ tip.tree)
    (hRules : w.checkout.work.Ruleless) (hReach : w.reach link.url = .ok origin)
    (hServes : origin.Serves link base) (hShared : tip.isAncestorOf base = true)
    (hBase : base.tree.Coherent)
    (hDisjoint : ∀ p, base.tree.get? p = tip.tree.get? p ∨ w.checkout.work.get? p = tip.tree.get? p)
    (hCoherent : (Tree.overlay tip.tree base.tree w.checkout.work).Coherent)
    (hFresh : ∀ revision, revision.tree = w.checkout.work → Commit.on (some tip) revision ∉ base.ancestors)
    (author : Person) {message : String} (hMessage : '\x00' ∉ message.toList) (credential : Credential) :
    ∃ report new w', w.sync author message credential = (.completed report, w') ∧ w'.SyncedAt link new ∧
      new.tree = Tree.overlay tip.tree base.tree w.checkout.work ∧
      (new = base ∨ ∃ revision, new = .on (some base) revision) := by
  obtain ⟨counted, hCounted, hSkips, hSteps⟩ := w.steps_of_staged h hRules (some author) credential
  have hStaged := Checkout.withStaged_stands h
  have hRuns : counted.skips (.commit message) = false := by
    rw [Bool.eq_false_iff, Ne, hSkips]
    exact hWork
  let new : Commit := .on (some tip) (.record w.checkout.work author author message)
  let committed : Checkout :=
    { w.checkout.withStaged with refs := w.checkout.refs.set (.branch link.branch) new }
  have hCommit : (backend (some author)).perform (.commit message) credential
      ⟨w.checkout.withStaged, w.reach⟩ = (.ok (), ⟨committed, w.reach⟩) :=
    backend_perform (perform_commit (Checkout.commit_of_stands hStaged author hMessage)) credential
  have hCommitted : committed.Stands link new seen new.tree := hStaged.with_tip new
  -- the remote cannot know a commit that is made only now
  have hUnknown : new.isAncestorOf base = false := by
    rw [Commit.isAncestorOf_eq_false_iff]
    exact hFresh _ rfl
  obtain ⟨c', status, final, hPull, hNotStopped, hStands, hFiles, hTree, hHistory⟩ :=
    Checkout.pull_of_ahead hCommitted rfl hReach hServes rfl hShared hUnknown hBase hDisjoint hCoherent
      author
  have hAncestor : base.isAncestorOf final = true := by
    rcases hHistory with rfl | ⟨revision, hHistory⟩
    · exact Commit.isAncestorOf_refl final
    · rw [Commit.isAncestorOf_iff, hHistory, Commit.mem_ancestors_on]
      exact .inr base.mem_ancestors_self
  have hRecorded : (counted.after ⟨.commit message, none, .ok ()⟩).Clear := hCounted.after rfl rfl
  obtain ⟨report, w', hSync, hSynced⟩ := SyncedAt.of_steps hRecorded
    ((hSteps _).trans (Backend.steps_of_perform hCounted.halted hRuns hCommit)) hPull hNotStopped hStands hFiles
    hReach hServes hAncestor
  exact ⟨report, final, w', hSync, hSynced, hTree, hHistory⟩

variable (w) in
/-- A sync is completed when the checkout and its origin changed different paths since the commit that
they share. The origin's branch then holds the changes of both, on top of what it had. A commit of the
origin may not be the one that this sync is about to make. -/
theorem sync_completed (h : w.checkout.Stands link tip seen staged) (hRules : w.checkout.work.Ruleless)
    (hReach : w.reach link.url = .ok origin) (hServes : origin.Serves link base)
    (hShared : tip.isAncestorOf base = true) (hBase : base.tree.Coherent)
    (hDisjoint : ∀ p, base.tree.get? p = tip.tree.get? p ∨ w.checkout.work.get? p = tip.tree.get? p)
    (hCoherent : (Tree.overlay tip.tree base.tree w.checkout.work).Coherent)
    (hFresh : ∀ revision, revision.tree = w.checkout.work → Commit.on (some tip) revision ∈ base.ancestors →
      w.checkout.work = tip.tree)
    (author : Person) {message : String} (hMessage : '\x00' ∉ message.toList) (credential : Credential) :
    ∃ report new w', w.sync author message credential = (.completed report, w') ∧ w'.SyncedAt link new ∧
      new.tree = Tree.overlay tip.tree base.tree w.checkout.work ∧
      (new = base ∨ ∃ revision, new = .on (some base) revision) := by
  by_cases hWork : w.checkout.work = tip.tree
  · obtain ⟨report, w', hSync, hSynced⟩ :=
      w.sync_of_unchanged h hWork hRules hReach hServes hShared hBase author message credential
    have hTree : Tree.overlay tip.tree base.tree w.checkout.work = base.tree := by
      rw [hWork, Tree.overlay_of_theirs_eq]
    exact ⟨report, base, w', hSync, hSynced, hTree.symm, .inl rfl⟩
  · exact w.sync_of_changed h hWork hRules hReach hServes hShared hBase hDisjoint hCoherent
      (fun revision hTree hKnown => hWork (hFresh revision hTree hKnown)) author hMessage credential

end Workspace

end Git

end VaultSync
