import VaultSync.Proofs.Git.Outcome
import VaultSync.Proofs.Git.Steps

/-! What a successful push says about the remote. A branch that was sent is there at the local commit.
A branch that counts as up to date was never compared with the remote, but with what was last seen
of it. -/
namespace VaultSync.Git

namespace Workspace

variable {w w' : Workspace} {author : Option Person} {remote branch url : String} {tip : Commit} {force : Bool}
  {updates : List RefUpdate} {credential : Credential}

/-- The commit that a branch of a remote is at, if the remote can be reached and has the branch. -/
def remoteTip? (remote branch : String) (w : Workspace) : Option Commit :=
  (w.checkout.remotes.lookup remote).bind fun url =>
    (w.reach url).toOption.bind fun origin => origin.refs.get? (.branch branch)

/-- There is a branch, and the remote has it at the same commit. -/
def Publishes (remote branch : String) (w : Workspace) : Prop :=
  w.checkout.refs.get? (.branch branch) ≠ none ∧
    w.remoteTip? remote branch = w.checkout.refs.get? (.branch branch)

instance (remote branch : String) (w : Workspace) : Decidable (w.Publishes remote branch) :=
  inferInstanceAs (Decidable (_ ∧ _))

/-- The remote has a branch, with every commit of the local one. -/
def Holds (remote branch : String) (w : Workspace) : Prop :=
  ∃ tip ∈ w.checkout.refs.get? (.branch branch), ∃ base ∈ w.remoteTip? remote branch,
    tip.isAncestorOf base = true

instance (remote branch : String) (w : Workspace) : Decidable (w.Holds remote branch) :=
  inferInstanceAs (Decidable (∃ _ ∈ _, ∃ _ ∈ _, _))

/-- The remote has a branch where it was last seen. -/
def Tracks (remote branch : String) (w : Workspace) : Prop :=
  w.remoteTip? remote branch = w.checkout.refs.get? (.tracking remote branch)

/-- The remote has lost no commit of a branch since it was last seen. -/
def Retains (remote branch : String) (w : Workspace) : Prop :=
  ∃ seen ∈ w.checkout.refs.get? (.tracking remote branch), ∃ base ∈ w.remoteTip? remote branch,
    seen.isAncestorOf base = true

theorem remoteTip?_eq_some (h : w.remoteTip? remote branch = some tip) :
    ∃ url origin, w.checkout.remotes.lookup remote = some url ∧ w.reach url = .ok origin ∧
      origin.refs.get? (.branch branch) = some tip := by
  obtain ⟨url, hUrl, h⟩ := Option.bind_eq_some_iff.1 h
  obtain ⟨origin, hOrigin, h⟩ := Option.bind_eq_some_iff.1 h
  exact ⟨url, origin, hUrl, Checkout.eq_ok_of_toOption hOrigin, h⟩

/-- A checkout that publishes a branch has its tip at the remote. -/
theorem Publishes.holds (h : w.Publishes remote branch) : w.Holds remote branch := by
  obtain ⟨hLocal, hSame⟩ := h
  obtain ⟨tip, hTip⟩ := Option.ne_none_iff_exists'.1 hLocal
  exact ⟨tip, hTip, tip, hSame.trans hTip, tip.isAncestorOf_refl⟩

/-! ### Pushing -/

/-- How a push of a branch ends that reports something. -/
inductive Pushed (remote branch : String) (tip : Commit) (w : Workspace) : List RefUpdate → Workspace → Prop
  | known (hSeen : w.checkout.refs.get? (.tracking remote branch) = some tip) :
      Pushed remote branch tip w (update branch .upToDate none) w
  | behind : Pushed remote branch tip w (update branch .rejectedNonFastForward none) w
  | refused : Pushed remote branch tip w
      (update branch .rejectedOtherReason (some Cause.repositoryMessage)) w
  | sent {url : String} {origin origin' : Repository} {c' : Checkout}
      (hUrl : w.checkout.remotes.lookup remote = some url) (hOrigin : w.reach url = .ok origin)
      (hPoint : origin.point (.branch branch) tip = some origin')
      (hSeen : w.checkout.within (·.point (.tracking remote branch) tip) = some c') :
      Pushed remote branch tip w (update branch .ok none) { w.place url origin' with checkout := c' }

/-- Publication changes at most the branch at the remote and the branch that tracks it. -/
theorem publish_pushed (hUrl : w.checkout.remotes.lookup remote = some url)
    (h : w.publish remote url branch force tip = (.ok updates, w')) :
    Pushed remote branch tip w updates w' := by
  rw [publish] at h
  split at h
  · cases h
  · rename_i origin hOrigin
    dsimp only at h
    split at h
    · obtain ⟨hUpdates, rfl⟩ := Prod.mk.inj h
      exact Except.ok.inj hUpdates ▸ .behind
    · split at h
      · cases h
      · split at h
        · obtain ⟨hUpdates, rfl⟩ := Prod.mk.inj h
          exact Except.ok.inj hUpdates ▸ .refused
        · rename_i origin' hPoint
          split at h
          · cases h
          · rename_i c' hSeen
            obtain ⟨hUpdates, rfl⟩ := Prod.mk.inj h
            exact Except.ok.inj hUpdates ▸ .sent hUrl hOrigin hPoint hSeen

/-- A push that is accepted named a local branch with a tip. -/
theorem pushed_of_ok {branch? : Option String} (h : w.push remote branch? force = (.ok updates, w')) :
    ∃ branch tip, (branch?.map .ok).getD w.checkout.currentBranch = .ok branch ∧
      w.checkout.refs.get? (.branch branch) = some tip ∧ Pushed remote branch tip w updates w' := by
  rw [push] at h
  split at h
  · cases h
  · rename_i branch hBranch
    split at h
    · cases h
    · rename_i tip hTip
      refine ⟨branch, tip, hBranch, hTip, ?_⟩
      split at h
      · rename_i hSeen
        obtain ⟨hUpdates, rfl⟩ := Prod.mk.inj h
        exact Except.ok.inj hUpdates ▸ .known hSeen
      · split at h
        · cases h
        · rename_i url hUrl
          exact publish_pushed hUrl h

namespace Pushed

/-- A push changes nothing in the checkout but what is known about the remote. -/
theorem frame (h : Pushed remote branch tip w updates w') :
    w'.checkout = { w.checkout with refs := w'.checkout.refs } ∧
      ∀ name, w'.checkout.refs.get? (.branch name) = w.checkout.refs.get? (.branch name) := by
  cases h with
  | known | behind | refused => exact ⟨rfl, fun _ => rfl⟩
  | sent hUrl hOrigin hPoint hSeen =>
      obtain ⟨repo, hRepo, rfl⟩ := Checkout.within_eq_some_iff.1 hSeen
      obtain ⟨-, -, rfl⟩ := Repository.point_eq_some_iff.1 hRepo
      exact ⟨rfl, fun name => by rw [Refs.get?_set, if_neg RefName.noConfusion]⟩

theorem head_eq (h : Pushed remote branch tip w updates w') : w'.checkout.head = w.checkout.head := by
  rw [h.frame.1]

/-- A branch that was sent is on the remote at the local commit. -/
theorem publishes_of_sent (h : Pushed remote branch tip w (update branch .ok none) w')
    (hTip : w.checkout.refs.get? (.branch branch) = some tip) : w'.Publishes remote branch := by
  generalize hUpdates : update branch .ok none = updates at h
  cases h with
  | known | behind | refused => simp [update] at hUpdates
  | sent hUrl hOrigin hPoint hSeen =>
      obtain ⟨repo, hRepo, rfl⟩ := Checkout.within_eq_some_iff.1 hSeen
      obtain ⟨-, -, rfl⟩ := Repository.point_eq_some_iff.1 hRepo
      obtain ⟨-, -, rfl⟩ := Repository.point_eq_some_iff.1 hPoint
      simp [Publishes, remoteTip?, hUrl, place, Except.toOption, Refs.get?_set, hTip]

/-- A branch that was accepted was sent, or it is at the commit that was last seen of it, and the remote was
not asked. -/
theorem of_accepted (h : Pushed remote branch tip w updates w')
    (hAccepted : ∀ update ∈ updates, update.Accepted) :
    updates = update branch .ok none ∨ (updates ≠ update branch .ok none ∧ w' = w ∧
      w.checkout.refs.get? (.tracking remote branch) = some tip) := by
  cases h with
  | known hSeen => exact .inr ⟨by simp [update], rfl, hSeen⟩
  | behind | refused => simp [update, RefUpdate.Accepted] at hAccepted
  | sent => exact .inl rfl

/-- After an accepted push the remote has the local commit if the branch was sent, or else if it still is where
it was last seen. -/
theorem publishes_iff (h : Pushed remote branch tip w updates w')
    (hTip : w.checkout.refs.get? (.branch branch) = some tip)
    (hAccepted : ∀ update ∈ updates, update.Accepted) :
    w'.Publishes remote branch ↔ updates = update branch .ok none ∨ w.Tracks remote branch := by
  rcases h.of_accepted hAccepted with rfl | ⟨hNotSent, rfl, hSeen⟩
  · exact iff_of_true (h.publishes_of_sent hTip) (.inl rfl)
  · rw [or_iff_right hNotSent, Publishes, Tracks, hSeen, hTip]
    exact and_iff_right (Option.some_ne_none tip)

/-- After an accepted push the remote holds the branch when something was sent, or when it held it already. -/
theorem holds_iff (h : Pushed remote branch tip w updates w')
    (hTip : w.checkout.refs.get? (.branch branch) = some tip)
    (hAccepted : ∀ update ∈ updates, update.Accepted) :
    w'.Holds remote branch ↔ updates = update branch .ok none ∨ w.Retains remote branch := by
  rcases h.of_accepted hAccepted with rfl | ⟨hNotSent, rfl, hSeen⟩
  · exact iff_of_true (h.publishes_of_sent hTip).holds (.inl rfl)
  · rw [or_iff_right hNotSent, Holds, Retains, hSeen, hTip]

end Pushed

/-! ### Pulling before the push -/

theorem remoteTip?_congr {c : Checkout} (hRemotes : c.remotes = w.checkout.remotes) :
    remoteTip? remote branch ⟨c, w.reach⟩ = w.remoteTip? remote branch := by
  rw [remoteTip?, remoteTip?, hRemotes]

/-- A pull that does not stop looks at the remote. Afterwards a branch of the remote is known where it is;
about one that the remote does not have anything may be known. -/
theorem tracks_of_pull {c pulled : Checkout} {reach : Reach} {status : RebaseStatus}
    (hOnce : ∀ url origin, reach url = .ok origin → (origin.refs.map (·.1)).Nodup)
    (hPull : c.pull author reach remote = (.ok status, pulled)) (hStatus : status ≠ .stopped) :
    ∃ branch, c.head = .branch branch ∧ pulled.head = .branch branch ∧ pulled.remotes = c.remotes ∧
      (remoteTip? remote branch ⟨c, reach⟩ ≠ none → Tracks remote branch ⟨pulled, reach⟩) := by
  obtain ⟨branch, hBranch⟩ := Checkout.currentBranch_of_pull hPull
  have hHead := Checkout.currentBranch_eq_ok hBranch
  obtain ⟨tip, hTip⟩ := Checkout.tip_of_currentBranch hBranch
  obtain ⟨fetched, hFetch, hPulled⟩ := Checkout.pulled_of_ok hHead hTip hPull
  have hFetched := Checkout.fetches hFetch
  obtain ⟨hStays, hRemotes, hRefs⟩ := hPulled.frame (by rw [hFetched.rest, hHead]) hStatus
  have hRemotes : pulled.remotes = c.remotes := by rw [hRemotes, hFetched.rest]
  refine ⟨branch, hHead, hStays, hRemotes, fun hThere => ?_⟩
  obtain ⟨base, hBase⟩ := Option.ne_none_iff_exists'.1 hThere
  obtain ⟨url, origin, hUrl, hOrigin, hPoints⟩ := remoteTip?_eq_some hBase
  have hSeen := Checkout.fetch_get? hUrl hOrigin (hOnce url origin hOrigin) hPoints hFetch
  have hSame := @remoteTip?_congr ⟨c, reach⟩ remote branch pulled hRemotes
  rw [Tracks, hSame, hBase, hRefs _ RefName.noConfusion, hSeen]

/-! ### Completed operations -/

/-- What a successful push says about the remote, whatever others did there. After a push of any branch, forced
or not, whose updates were all accepted, the remote has the branch at the local commit exactly if it
was sent or is still where it was last seen; and it has all local commits exactly if it was sent or the
remote lost none since. So it is after a push operation that is completed. A sync looks at the remote
first. When it is completed the remote has the branch at the local commit, unless it has no such
branch and nothing was sent. -/
theorem accepted_push_publishes_iff (w : Workspace) (author : Option Person) (remote : String)
    (credential : Credential)
    (hOnce : ∀ url origin, w.reach url = .ok origin → (origin.refs.map (·.1)).Nodup) :
    (∀ branch? force updates w', w.push remote branch? force = (.ok updates, w') →
      (∀ update ∈ updates, update.Accepted) →
      ∃ branch, (branch?.map .ok).getD w.checkout.currentBranch = .ok branch ∧
        w'.checkout.refs.get? (.branch branch) = w.checkout.refs.get? (.branch branch) ∧
        (w'.Publishes remote branch ↔ updates = update branch .ok none ∨ w.Tracks remote branch) ∧
        (w'.Holds remote branch ↔ updates = update branch .ok none ∨ w.Retains remote branch)) ∧
    (∀ report w', (backend author).execute .silent (.push remote) credential w = (.completed report, w') →
      ∃ branch, w.checkout.head = .branch branch ∧ w'.checkout.head = .branch branch ∧
        (w'.Publishes remote branch ↔ report.refUpdates = update branch .ok none ∨ w.Tracks remote branch) ∧
        (w'.Holds remote branch ↔ report.refUpdates = update branch .ok none ∨ w.Retains remote branch)) ∧
    (∀ message report w',
      (backend author).execute .silent (.sync remote message) credential w = (.completed report, w') →
      ∃ branch, w.checkout.head = .branch branch ∧ w'.checkout.head = .branch branch ∧
        (w'.Publishes remote branch ↔
          report.refUpdates = update branch .ok none ∨ w.remoteTip? remote branch ≠ none)) := by
  refine ⟨?_, ?_, ?_⟩
  · intro branch? force updates w' hPush hAccepted
    obtain ⟨branch, tip, hBranch, hTip, hPushed⟩ := pushed_of_ok hPush
    exact ⟨branch, hBranch, hPushed.frame.2 branch, hPushed.publishes_iff hTip hAccepted,
      hPushed.holds_iff hTip hAccepted⟩
  · intro report w' hExecute
    obtain ⟨hPush, hAccepted⟩ := push_of_completes (Backend.completes_of_execute hExecute)
    obtain ⟨branch, tip, hBranch, hTip, hPushed⟩ := pushed_of_ok hPush
    have hHead := Checkout.currentBranch_eq_ok hBranch
    exact ⟨branch, hHead, hPushed.head_eq.trans hHead, hPushed.publishes_iff hTip hAccepted,
      hPushed.holds_iff hTip hAccepted⟩
  · intro message report w' hExecute
    obtain ⟨-, hStaged⟩ := addAll_of_completes (Backend.completes_of_execute hExecute)
    obtain ⟨recorded, hCommit, hRecorded⟩ := commit_of_completes (status_of_completes hStaged)
    obtain ⟨status, ⟨pulled, reach⟩, hPull, rfl, hStatus, hPulled⟩ := pull_of_completes hRecorded
    obtain ⟨hPush, hAccepted⟩ := push_of_completes hPulled
    obtain ⟨branch, hHead, hStays, hRemotes, hTracks⟩ := tracks_of_pull hOnce hPull hStatus
    obtain ⟨branch', tip, hBranch, hTip, hPushed⟩ := pushed_of_ok hPush
    -- the pull leaves `HEAD` on its branch, which is the one that is pushed
    obtain rfl : branch = branch' :=
      Head.branch.inj (hStays.symm.trans (Checkout.currentBranch_eq_ok hBranch))
    have hFrame : w.checkout.head = .branch branch ∧ recorded.remotes = w.checkout.remotes := by
      rcases hCommit with rfl | hCommit
      · exact ⟨hHead, rfl⟩
      · obtain ⟨hOn, hSame⟩ := Checkout.commit_frame hCommit
        exact ⟨hOn branch hHead, hSame⟩
    have hBefore : remoteTip? remote branch ⟨recorded, w.reach⟩ = w.remoteTip? remote branch :=
      remoteTip?_congr hFrame.2
    have hAfter : remoteTip? remote branch ⟨pulled, w.reach⟩ = w.remoteTip? remote branch :=
      remoteTip?_congr (hRemotes.trans hFrame.2)
    refine ⟨branch, hFrame.1, hPushed.head_eq.trans hStays, ?_⟩
    rw [hPushed.publishes_iff hTip hAccepted]
    -- after the pull the tracking branch is what the remote has, if it has the branch at all
    rcases hPushed.of_accepted hAccepted with hSent | ⟨hNotSent, -, hSeen⟩
    · exact iff_of_true (.inl hSent) (.inl hSent)
    · rw [or_iff_right hNotSent, or_iff_right hNotSent]
      constructor
      · intro hStill hNone
        rw [Tracks, hAfter, hNone, hSeen] at hStill
        cases hStill
      · intro hThere
        exact hTracks (hBefore ▸ hThere)

open Checkout (standingAt reachAt writer writes)

/-- The checkout has a commit of its own on top of the remote's. A push sends it, and so does a sync. -/
theorem accepted_push_publishes_iff_sent :
    let shared := writes "a" "1" none
    let w : Workspace := ⟨standingAt (writes "b" "2" (some shared)), reachAt shared⟩
    let pushed := w.push "origin" none false
    let synced := (backend (some writer)).execute .silent (.sync "origin" "note") (.password "" "") w
    pushed.1.toOption = some (update "master" .ok none) ∧ pushed.2.Publishes "origin" "master" ∧
      synced.1.isSuccess = true ∧ synced.2.Publishes "origin" "master" := by
  intro shared w pushed synced
  have hSent : pushed.1.toOption = some (update "master" .ok none) := by decide +kernel
  have hSynced : synced.1.isSuccess = true := by decide +kernel
  have hThere : w.remoteTip? "origin" "master" ≠ none := by decide +kernel
  obtain ⟨hPushes, -, hSyncs⟩ :=
    w.accepted_push_publishes_iff (some writer) "origin" (.password "" "") (by
      intro url origin hOrigin
      obtain rfl := Except.ok.inj hOrigin
      decide)
  obtain ⟨branch, hBranch, -, hPublishes, -⟩ := hPushes none false (update "master" .ok none) pushed.2
    (Prod.ext (Checkout.eq_ok_of_toOption hSent) rfl) (by
      intro update hUpdate
      rw [List.mem_singleton.1 hUpdate]
      exact .inl rfl)
  obtain rfl : "master" = branch := Except.ok.inj hBranch
  obtain ⟨report, hReport⟩ := SyncOutcome.exists_report hSynced
  obtain ⟨branch, hHead, -, hPublishes'⟩ := hSyncs "note" report synced.2 hReport
  obtain rfl : "master" = branch := Head.branch.inj hHead
  exact ⟨hSent, hPublishes.2 (.inl rfl), hSynced, hPublishes'.2 (.inr hThere)⟩

/-- Another client takes back what was sent. A second push, forced or not, is still accepted, and a push
operation completed, although the remote does not have the commit. A sync is completed when
another client has taken away the branch. -/
theorem accepted_push_unpublished :
    let shared := writes "a" "1" none
    let ours : Workspace := ⟨standingAt (writes "b" "2" (some shared)), reachAt shared⟩
    let sent := (ours.push "origin" none false).2
    let theirs : Workspace := ⟨standingAt (writes "c" "3" (some shared)), sent.reach⟩
    let forced := (theirs.push "origin" none true).2
    let again : Workspace := ⟨sent.checkout, forced.reach⟩
    let emptied : Workspace := ⟨sent.checkout, fun _ => .ok (Repository.init true)⟩
    let synced := (backend (some writer)).execute .silent (.sync "origin" "note") (.password "" "") emptied
    (ours.push "origin" none false).1.toOption = some (update "master" .ok none) ∧
    (theirs.push "origin" none true).1.toOption = some (update "master" .ok none) ∧
    (∀ force, (again.push "origin" none force).1.toOption = some (update "master" .upToDate none) ∧
      ¬ (again.push "origin" none force).2.Publishes "origin" "master" ∧
      ¬ (again.push "origin" none force).2.Holds "origin" "master") ∧
    ((backend (some writer)).execute .silent (.push "origin") (.password "" "") again).1.isSuccess = true ∧
    synced.1.isSuccess = true ∧ ¬ synced.2.Holds "origin" "master" := by
  decide +kernel

end Workspace

end VaultSync.Git
