import VaultSync.Git.Workspace
import VaultSync.Proofs.Git.Clean
import VaultSync.Proofs.Git.Fetch
import VaultSync.Proofs.Git.History

/-! A repository on a branch that it shares with its origin, and what staging, recording, fetching and
pushing make of it. Nothing is in progress, nothing is locked and no name is in the way, so none of these
commands fails. -/
namespace VaultSync.Git

/-- The branch of an origin that a repository follows, and where the other branches there are. -/
structure Link where
  url : String
  branch : String
  others : String → Option Commit

namespace Repository

variable {link : Link} {tip tip' seen seen' : Commit} {staged staged' : Tree} {repo origin : Repository}

/-- The repository is on its branch at a tip, saw the origin's branch at another one, and holds a tree in
its index. -/
structure Stands (link : Link) (tip seen : Commit) (staged : Tree) (repo : Repository) : Prop where
  head : repo.head = .branch link.branch
  points : repo.refs.get? (.branch link.branch) = some tip
  tracks : repo.refs.get? (.tracking originName link.branch) = some seen
  others : ∀ name, name ≠ link.branch → repo.refs.get? (.tracking originName name) = link.others name
  clear : repo.refs.clashes (.branch link.branch) = false
  seen_clear : repo.refs.clashes (.tracking originName link.branch) = false
  remote : repo.remotes.lookup originName = some link.url
  index : repo.index = .ofTree staged
  rebase : repo.rebase = none
  strays : repo.strays = .empty

/-- A bare repository whose branch is at a tip and can be written. -/
structure Serves (link : Link) (tip : Commit) (origin : Repository) : Prop where
  bare : origin.bare = true
  points : origin.refs.get? (.branch link.branch) = some tip
  only : ∀ commit, (.branch link.branch, commit) ∈ origin.refs → commit = tip
  others : ∀ name commit, name ≠ link.branch → (.branch name, commit) ∈ origin.refs →
    link.others name = some commit
  clear : origin.refs.clashes (.branch link.branch) = false
  free : origin.isLocked (RefName.branch link.branch).path = false

/-- Nothing is locked where no stray file lies in the repository. -/
theorem isLocked_eq_false (h : repo.strays = .empty) (path : TreePath) : repo.isLocked path = false := by
  rw [isLocked, h, Tree.get?_empty]
  rfl

theorem point_eq_some {name : RefName} (hFree : repo.isLocked name.path = false)
    (hClear : repo.refs.clashes name = false) (commit : Commit) :
    repo.point name commit = some { repo with refs := repo.refs.set name commit } := by
  rw [point, hFree, hClear]
  rfl

namespace Stands

theorem headCommit? (h : Stands link tip seen staged repo) : repo.headCommit? = some tip :=
  headCommit?_of_branch h.head h.points

theorem headTree (h : Stands link tip seen staged repo) : repo.headTree = tip.tree :=
  headTree_of_headCommit? h.headCommit?

theorem with_index (h : Stands link tip seen staged repo) (staged' : Tree) :
    Stands link tip seen staged' { repo with index := .ofTree staged' } :=
  { h with index := rfl }

theorem with_tip (h : Stands link tip seen staged repo) (tip' : Commit) :
    Stands link tip' seen staged { repo with refs := repo.refs.set (.branch link.branch) tip' } where
  head := h.head
  points := by rw [Refs.get?_set, if_pos rfl]
  tracks := by rw [Refs.get?_set, if_neg (by simp), h.tracks]
  others name hName := by rw [Refs.get?_set, if_neg (by simp), h.others name hName]
  clear := Refs.clashes_set h.clear (.refl _)
  seen_clear := Refs.clashes_set h.seen_clear (RefName.apart_branch_tracking _ _ _)
  remote := h.remote
  index := h.index
  rebase := h.rebase
  strays := h.strays

theorem with_seen (h : Stands link tip seen staged repo) (seen' : Commit) :
    Stands link tip seen' staged
      { repo with refs := repo.refs.set (.tracking originName link.branch) seen' } where
  head := h.head
  points := by rw [Refs.get?_set, if_neg (by simp), h.points]
  tracks := by rw [Refs.get?_set, if_pos rfl]
  others name hName := by rw [Refs.get?_set, if_neg (by simpa using hName), h.others name hName]
  clear := Refs.clashes_set h.clear (RefName.apart_branch_tracking _ _ _).symm
  seen_clear := Refs.clashes_set h.seen_clear (.refl _)
  remote := h.remote
  index := h.index
  rebase := h.rebase
  strays := h.strays

theorem point_tip (h : Stands link tip seen staged repo) (tip' : Commit) :
    repo.point (.branch link.branch) tip' =
      some { repo with refs := repo.refs.set (.branch link.branch) tip' } :=
  point_eq_some (isLocked_eq_false h.strays _) h.clear tip'

theorem point_seen (h : Stands link tip seen staged repo) (seen' : Commit) :
    repo.point (.tracking originName link.branch) seen' =
      some { repo with refs := repo.refs.set (.tracking originName link.branch) seen' } :=
  point_eq_some (isLocked_eq_false h.strays _) h.seen_clear seen'

end Stands

theorem Serves.with_tip (h : Serves link tip origin) (tip' : Commit) :
    Serves link tip' { origin with refs := origin.refs.set (.branch link.branch) tip' } where
  bare := h.bare
  points := by rw [Refs.get?_set, if_pos rfl]
  only commit hMem := by
    rcases Refs.mem_set.1 hMem with ⟨-, hNe⟩ | hNew
    · exact absurd rfl hNe
    · exact (Prod.mk.inj hNew).2
  others name commit hName hMem := by
    rcases Refs.mem_set.1 hMem with ⟨hOld, -⟩ | hNew
    · exact h.others name commit hName hOld
    · exact absurd (RefName.branch.inj (Prod.mk.inj hNew).1) hName
  clear := Refs.clashes_set h.clear (.refl _)
  free := h.free

end Repository

open Repository (originName Stands Serves)

variable {link : Link} {tip seen current : Commit} {staged : Tree} {c : Checkout} {reach : Reach}
  {origin : Repository}

namespace Checkout

/-- The checkout with all its files in the index. -/
def withStaged (c : Checkout) : Checkout :=
  { c with index := .ofTree c.work }

theorem withStaged_stands (h : c.Stands link tip seen staged) : c.withStaged.Stands link tip seen c.work :=
  h.with_index c.work

/-- Staging puts all files into the index. -/
theorem addAll_of_stands (h : c.Stands link tip seen staged) (hRules : c.work.Ruleless) :
    c.addAll = (.ok (), c.withStaged) := by
  have hConflicts : c.index.conflicts = [] := by rw [h.index, Index.ofTree]
  have hStaged : c.stagedAll = .ofTree c.work := by
    refine congrArg Index.ofTree (Tree.tabulate_eq (fun p => Tree.mem_paths.2) fun p _ => ?_)
    rw [stagedContent, isIgnored_eq_false (Repository.ruleless_of_strays h.strays) hRules, Bool.not_false,
      Bool.or_true, if_pos rfl]
  have hFree : c.isLocked ["index"] = false := Repository.isLocked_eq_false h.strays _
  simp [addAll, hConflicts, hStaged, within, Repository.writeIndex, hFree, withStaged]

/-- Recording what is staged makes a commit on top of the tip. -/
theorem commit_of_stands (h : c.Stands link tip seen staged) (author : Person) {message : String}
    (hMessage : '\x00' ∉ message.toList) :
    c.commit (some author) message =
      (.ok (), { c with
        refs := c.refs.set (.branch link.branch) (.on (some tip) (.record staged author author message)) }) := by
  have hConflicts : c.index.conflicts = [] := by rw [h.index, Index.ofTree]
  have hStaged : c.index.staged = staged := by rw [h.index, Index.ofTree]
  have hAdvance (new : Commit) : c.within (·.advance new) =
      some { c with refs := c.refs.set (.branch link.branch) new } := by
    simp only [within, Repository.advance, h.head, h.point_tip, Option.map_some]
  simp [commit, hConflicts, h.head, hMessage, hStaged, h.headCommit?, hAdvance]

/-! ### Fetching -/

/-- Of the branches of the origin only the shared one can be news. -/
theorem eq_of_mem_unseen {repo : Repository} (h : repo.Stands link tip seen staged)
    (hServes : origin.Serves link current) {b : String × Commit}
    (hMem : b ∈ repo.unseen originName origin.branches) :
    b = (link.branch, current) ∧ seen ≠ current := by
  obtain ⟨name, commit⟩ := b
  obtain ⟨hBranch, hNew⟩ := List.mem_filter.1 hMem
  have hNew : repo.refs.get? (.tracking originName name) ≠ some commit := of_decide_eq_true hNew
  have hRef := Repository.mem_branches.1 hBranch
  by_cases hName : name = link.branch
  · subst hName
    obtain rfl := hServes.only commit hRef
    rw [h.tracks] at hNew
    exact ⟨rfl, fun hSame => hNew (congrArg some hSame)⟩
  · rw [h.others name hName, hServes.others name commit hName hRef] at hNew
    exact absurd rfl hNew

/-- A repository at rest takes up what a fetch brings, and stays at rest. -/
theorem remember_of_stands {repo : Repository} (h : repo.Stands link tip seen staged)
    {news : List (String × Commit)} (hNews : ∀ b ∈ news, b = (link.branch, current)) :
    ∃ repo', repo.remember originName news = (true, repo') ∧
      repo'.Stands link tip (if news = [] then seen else current) staged := by
  induction news generalizing repo seen with
  | nil => exact ⟨repo, rfl, h⟩
  | cons b news ih =>
      obtain rfl := hNews b List.mem_cons_self
      obtain ⟨repo', hRemember, hStands⟩ :=
        ih (h.with_seen current) fun b hb => hNews b (List.mem_cons_of_mem _ hb)
      refine ⟨repo', ?_, by simpa using hStands⟩
      rw [Repository.remember, h.point_seen]
      exact hRemember

/-- After a fetch the repository has seen where the origin's branch is. -/
theorem fetch_of_stands (h : c.Stands link tip seen staged) (hReach : reach link.url = .ok origin)
    (hServes : origin.Serves link current) :
    ∃ repo, c.fetch reach originName = (.ok (), { c with toRepository := repo }) ∧
      repo.Stands link tip current staged := by
  obtain ⟨repo, hRemember, hStands⟩ :=
    remember_of_stands h fun b hb => (eq_of_mem_unseen h hServes hb).1
  refine ⟨repo, ?_, ?_⟩
  · rw [fetch, h.remote]
    simp only [hReach, hRemember, if_true]
  · split at hStands
    · rename_i hNone
      have hSeen : seen = current := Classical.byContradiction fun hNe => by
        have hMem : (link.branch, current) ∈ c.unseen originName origin.branches :=
          List.mem_filter.2 ⟨Repository.mem_branches.2 (Refs.mem_of_get? hServes.points), by simp [h.tracks, hNe]⟩
        rw [hNone] at hMem
        exact absurd hMem List.not_mem_nil
      exact hSeen ▸ hStands
    · exact hStands

end Checkout

/-! ### Pushing -/

namespace Workspace

variable (w : Workspace)

/-- Pushing commits on top of those of the origin leaves its branch and the local one at one commit. -/
theorem push_of_stands (h : w.checkout.Stands link tip current staged)
    (hReach : w.reach link.url = .ok origin) (hServes : origin.Serves link current)
    (hAncestor : current.isAncestorOf tip = true) :
    ∃ updates repo origin' reach', w.push originName none false =
        (.ok updates, ⟨{ w.checkout with toRepository := repo }, reach'⟩) ∧
      updates.filterMap RefUpdate.pushError? = [] ∧ repo.Stands link tip tip staged ∧
      reach' link.url = .ok origin' ∧ origin'.Serves link tip := by
  have hBranch : w.checkout.currentBranch = .ok link.branch := by
    rw [Checkout.currentBranch, h.head]
    simp [h.headCommit?]
  by_cases hSame : tip = current
  · subst hSame
    refine ⟨update link.branch .upToDate none, w.checkout.toRepository, origin, w.reach, ?_, rfl, h,
      hReach, hServes⟩
    simp only [push, Option.map_none, Option.getD_none, hBranch, h.points, h.tracks, if_true]
  · have hNew : ¬ (some current = some tip) := fun hEq => hSame (Option.some.inj hEq).symm
    have hPoint := Repository.point_eq_some hServes.free hServes.clear tip
    refine ⟨update link.branch .ok none, _, _, (w.place link.url _).reach, ?_, rfl, h.with_seen tip,
      if_pos rfl, hServes.with_tip tip⟩
    simp only [push, Option.map_none, Option.getD_none, hBranch, h.points, h.tracks, hNew, if_false,
      h.remote, publish, hReach, hServes.points, Option.any_some, hAncestor, Bool.not_true,
      Bool.and_false, Bool.false_eq_true, hServes.bare, hPoint, place, Checkout.within, h.point_seen,
      Option.map_some]

end Workspace

end VaultSync.Git
