import VaultSync.Git.Remote
import VaultSync.Proofs.Git.Refs
import VaultSync.Proofs.Git.Switch

/-! What a fetch changes: only what is known about the branches of the remote, and only to what its
repository has there. -/
namespace VaultSync.Git

namespace Repository

variable {repo repo' origin : Repository} {remote name : String} {commit : Commit}
  {branches : List (String × Commit)}

/-- The branches that a repository offers are the local ones among its references. -/
theorem mem_branches : (name, commit) ∈ origin.branches ↔ (.branch name, commit) ∈ origin.refs := by
  rw [Repository.branches, List.mem_mergeSort, List.mem_filterMap]
  constructor
  · rintro ⟨⟨name' | ⟨remote, name'⟩, commit'⟩, hMem, hSome⟩
    · obtain ⟨rfl, rfl⟩ := Prod.mk.inj (Option.some.inj hSome)
      exact hMem
    · simp at hSome
  · exact fun hMem => ⟨_, hMem, rfl⟩

/-- The names of branches are as different as those of the references. -/
theorem nodup_branches (hOnce : (origin.refs.map (·.1)).Nodup) : (origin.branches.map (·.1)).Nodup := by
  refine ((List.mergeSort_perm _ _).map _).nodup_iff.2 ?_
  rw [List.Nodup, List.pairwise_map, List.pairwise_filterMap]
  rw [List.Nodup, List.pairwise_map] at hOnce
  refine hOnce.imp fun {ref ref'} hNe b hb b' hb' hName => hNe ?_
  obtain ⟨⟨name⟩ | ⟨remote, name⟩, commit⟩ := ref
  · obtain ⟨⟨name'⟩ | ⟨remote', name'⟩, commit'⟩ := ref'
    · obtain rfl := Option.some.inj hb
      obtain rfl := Option.some.inj hb'
      exact congrArg RefName.branch hName
    · cases hb'
  · cases hb

/-- Nothing but what is known about some branches of a remote has changed. -/
structure Learns (remote : String) (branches : List (String × Commit)) (repo repo' : Repository) : Prop where
  rest : repo' = { repo with refs := repo'.refs }
  others : ∀ name, (∀ b ∈ branches, name ≠ .tracking remote b.1) → repo'.refs.get? name = repo.refs.get? name
  sources : ∀ ref ∈ repo'.refs, ref ∈ repo.refs ∨ ∃ b ∈ branches, ref = (.tracking remote b.1, b.2)

namespace Learns

theorem refl (remote : String) (branches : List (String × Commit)) (repo : Repository) :
    Learns remote branches repo repo :=
  ⟨rfl, fun _ _ => rfl, fun _ => .inl⟩

theorem mono {more : List (String × Commit)} (h : Learns remote branches repo repo')
    (hMore : ∀ b ∈ branches, b ∈ more) : Learns remote more repo repo' where
  rest := h.rest
  others name hName := h.others name fun b hb => hName b (hMore b hb)
  sources ref hRef := (h.sources ref hRef).imp_right fun ⟨b, hb, hEq⟩ => ⟨b, hMore b hb, hEq⟩

end Learns

/-- Remembering changes nothing else, wherever it ends. -/
theorem remember_learns (remote : String) (repo : Repository) (branches : List (String × Commit)) :
    Learns remote branches repo (repo.remember remote branches).2 := by
  induction branches generalizing repo with
  | nil => exact .refl remote [] repo
  | cons b branches ih =>
      obtain ⟨name, commit⟩ := b
      rw [remember]
      cases hPoint : repo.point (.tracking remote name) commit with
      | none => exact .refl remote _ repo
      | some pointed =>
          obtain ⟨-, -, rfl⟩ := point_eq_some_iff.1 hPoint
          have hRest := ih { repo with refs := repo.refs.set (.tracking remote name) commit }
          refine ⟨hRest.rest, fun other hOther => ?_, fun ref hRef => ?_⟩
          · rw [List.forall_mem_cons] at hOther
            rw [hRest.others other hOther.2, Refs.get?_set, if_neg hOther.1]
          · rcases hRest.sources ref hRef with hSet | ⟨b, hb, rfl⟩
            · rcases Refs.mem_set.1 hSet with ⟨hOld, -⟩ | rfl
              · exact .inl hOld
              · exact .inr ⟨_, List.mem_cons_self, rfl⟩
            · exact .inr ⟨b, List.mem_cons_of_mem _ hb, rfl⟩

/-- When remembering does not break off, each branch is known where it was seen. -/
theorem remember_get? (hNames : (branches.map (·.1)).Nodup)
    (h : repo.remember remote branches = (true, repo')) (hMem : (name, commit) ∈ branches) :
    repo'.refs.get? (.tracking remote name) = some commit := by
  induction branches generalizing repo with
  | nil => simp at hMem
  | cons b branches ih =>
      rw [List.map_cons, List.nodup_cons] at hNames
      rw [remember] at h
      cases hPoint : repo.point (.tracking remote b.1) b.2 with
      | none => simp [hPoint] at h
      | some pointed =>
          rw [hPoint] at h
          rcases List.mem_cons.1 hMem with rfl | hMem
          · obtain ⟨-, -, rfl⟩ := point_eq_some_iff.1 hPoint
            have hOthers := (remember_learns remote
              { repo with refs := repo.refs.set (.tracking remote name) commit } branches).others
              (.tracking remote name) fun b hb hName =>
                hNames.1 (List.mem_map.2 ⟨b, hb, (RefName.tracking.inj hName).2.symm⟩)
            simp only at h
            rw [h] at hOthers
            rw [hOthers, Refs.get?_set, if_pos rfl]
          · exact ih hNames.2 h hMem

end Repository

namespace Checkout

variable {c c' : Checkout} {reach : Reach} {remote url name : String} {origin : Repository} {commit : Commit}

open Repository (Learns)

/-- A fetch, also one that fails, changes at most what is known about the remote, and knows nothing but what
was known before or its repository has. -/
structure Fetches (reach : Reach) (remote : String) (c fetched : Checkout) : Prop where
  rest : fetched = { c with refs := fetched.refs }
  others : ∀ name, (∀ branch, name ≠ .tracking remote branch) → fetched.refs.get? name = c.refs.get? name
  sources : ∀ ref ∈ fetched.refs, ref ∈ c.refs ∨ ∃ url origin branch,
    c.remotes.lookup remote = some url ∧ reach url = .ok origin ∧ ref.1 = .tracking remote branch ∧
      (.branch branch, ref.2) ∈ origin.refs

/-- Each run of `fetch` changes at most the tracking branches of its remote. -/
theorem fetches {result : Except TransportError Unit} {fetched : Checkout}
    (h : c.fetch reach remote = (result, fetched)) : Fetches reach remote c fetched := by
  have hSame : Fetches reach remote c c := ⟨rfl, fun _ _ => rfl, fun _ => .inl⟩
  rw [fetch] at h
  cases hUrl : c.remotes.lookup remote with
  | none =>
      rw [hUrl] at h
      exact (Prod.mk.inj h).2 ▸ hSame
  | some url =>
      rw [hUrl] at h
      cases hOrigin : reach url with
      | error u =>
          simp only [hOrigin] at h
          exact (Prod.mk.inj h).2 ▸ hSame
      | ok origin =>
          have hLearns := (Repository.remember_learns remote c.toRepository
            (c.unseen remote origin.branches)).mono fun b hb => (List.mem_filter.1 hb).1
          simp only [hOrigin] at h
          obtain rfl := (Prod.mk.inj h).2
          refine ⟨?_, fun name hName => hLearns.others name fun b hb => hName b.1, fun ref hRef => ?_⟩
          · rw [← hLearns.rest]
          · refine (hLearns.sources ref hRef).imp_right ?_
            rintro ⟨b, hb, rfl⟩
            exact ⟨url, origin, b.1, hUrl, hOrigin, rfl, Repository.mem_branches.1 hb⟩

namespace Fetches

variable {fetched : Checkout} (h : Fetches reach remote c fetched)

include h

theorem branch (branch : String) : fetched.refs.get? (.branch branch) = c.refs.get? (.branch branch) :=
  h.others (.branch branch) fun _ => RefName.noConfusion

theorem headCommit? : fetched.headCommit? = c.headCommit? := by
  have hHead : fetched.head = c.head := by rw [h.rest]
  rw [Repository.headCommit?, Repository.headCommit?, hHead]
  cases c.head with
  | branch name => exact h.branch name
  | detached commit => rfl
  | unreadable => rfl

theorem headTree : fetched.headTree = c.headTree :=
  congrArg treeOf h.headCommit?

/-- What is known about a remote is not in the way of a branch. -/
theorem clashes {branch : String} (hClear : c.refs.clashes (.branch branch) = false) :
    fetched.refs.clashes (.branch branch) = false := by
  rw [Refs.clashes_eq_false_iff] at hClear ⊢
  intro ref hRef
  rcases h.sources ref hRef with hOld | ⟨_, _, name, -, -, hName, -⟩
  · exact hClear ref hOld
  · exact hName ▸ (RefName.apart_branch_tracking _ _ _).symm

theorem isLocked (path : TreePath) : fetched.isLocked path = c.isLocked path := by
  rw [h.rest]
  rfl

/-- A status does not look at what is known about remotes. -/
theorem status : fetched.status = c.status := by
  have hStanding : fetched.standing = c.standing := by
    funext path
    rw [standing, standing, h.headTree, h.rest]
    rfl
  rw [Checkout.status, Checkout.status]
  simp only [count, paths, hStanding, h.headTree]
  rw [h.rest]

end Fetches

/-- After a fetch that succeeds every branch of the remote is known where it is. -/
theorem fetch_get? (hUrl : c.remotes.lookup remote = some url) (hOrigin : reach url = .ok origin)
    (hOnce : (origin.refs.map (·.1)).Nodup) (hBranch : origin.refs.get? (.branch name) = some commit)
    (h : c.fetch reach remote = (.ok (), c')) : c'.refs.get? (.tracking remote name) = some commit := by
  have hMem := Repository.mem_branches.2 (Refs.mem_of_get? hBranch)
  have hNames := Repository.nodup_branches hOnce
  have hNews : ((c.unseen remote origin.branches).map (·.1)).Nodup :=
    hNames.sublist (List.filter_sublist.map _)
  rw [fetch, hUrl] at h
  simp only [hOrigin] at h
  cases hRemember : c.remember remote (c.unseen remote origin.branches) with
  | mk done repo =>
      rw [hRemember] at h
      cases done with
      | false => simp at h
      | true =>
          obtain rfl : { c with toRepository := repo } = c' := by simpa using h
          -- only news is written: what the tracking branch has already must be left alone by the rest of it
          by_cases hKnown : c.refs.get? (.tracking remote name) = some commit
          · have hLearns := Repository.remember_learns remote c.toRepository (c.unseen remote origin.branches)
            rw [hRemember] at hLearns
            refine (hLearns.others _ fun b hb hName => ?_).trans hKnown
            obtain ⟨hThere, hNew⟩ := List.mem_filter.1 hb
            obtain ⟨-, rfl⟩ := RefName.tracking.inj hName
            have hSame := Refs.get?_of_mem hOnce (Repository.mem_branches.1 hThere)
            rw [hBranch] at hSame
            exact absurd (hSame ▸ hKnown) (of_decide_eq_true hNew)
          · exact Repository.remember_get? hNews hRemember (List.mem_filter.2 ⟨hMem, decide_eq_true hKnown⟩)

end Checkout

end VaultSync.Git
