import Mathlib.Logic.Function.Basic
import VaultSync.Proofs.Git.Clone
import VaultSync.Proofs.Git.Sync

/-! Clones of one branch whose owners change different paths and sync in any order. No sync fails, and none
loses what another clone published before. -/
namespace VaultSync.Git

open Repository (originName Stands Serves)

/-- Who may change which path. No path has two owners, and no path of one owner needs a directory where
another one may have a file. -/
structure Owners (ι : Type) where
  owns : ι → TreePath → Prop
  disjoint : ∀ i j p, i ≠ j → owns i p → ¬ owns j p
  apart : ∀ i j p q, i ≠ j → owns i p → owns j q → q.isBelow p = false

/-- A change of files by an owner: only paths of its own change, and the files can lie on a disk and hold
no rules. -/
structure Owners.Allows {ι : Type} (owners : Owners ι) (i : ι) (old new : Tree) : Prop where
  own : ∀ p, ¬ owners.owns i p → new.get? p = old.get? p
  coherent : new.Coherent
  ruleless : new.Ruleless

/-- Clones, and the repositories that they reach. -/
structure Fleet (ι : Type) where
  checkouts : ι → Checkout
  reach : Reach

namespace Fleet

variable {ι : Type}

/-- Clones of a repository, before anything else happens. -/
def clones (origin : Repository) (url : String) (reach : Reach) : Fleet ι :=
  ⟨fun _ => origin.clone url, reach⟩

/-- The files of the branch at an address. -/
def published (fleet : Fleet ι) (url branch : String) : Tree :=
  match fleet.reach url with
  | .ok origin => treeOf (origin.refs.get? (.branch branch))
  | .error _ => .empty

/-- Gives a clone other files. -/
def edit [DecidableEq ι] (fleet : Fleet ι) (i : ι) (work : Tree) : Fleet ι :=
  { fleet with checkouts := Function.update fleet.checkouts i { fleet.checkouts i with work } }

/-- Syncs a clone. -/
def sync [DecidableEq ι] (fleet : Fleet ι) (author : Person) (i : ι) (message : String) (credential : Credential) :
    SyncOutcome × Fleet ι :=
  let (outcome, w) := Workspace.sync author message credential ⟨fleet.checkouts i, fleet.reach⟩
  (outcome, ⟨Function.update fleet.checkouts i w.checkout, w.reach⟩)

/-- Edits and syncs in any order, with the files that each clone published last. A clone that did not sync
yet counts as having published what all clones started from. -/
inductive Run [DecidableEq ι] (owners : Owners ι) (authors : ι → Person) (url branch : String)
    (start : Fleet ι) : Fleet ι → (ι → Tree) → Prop
  | start : Run owners authors url branch start start fun _ => start.published url branch
  | edit {fleet : Fleet ι} {last : ι → Tree} (h : Run owners authors url branch start fleet last) (i : ι)
      {work : Tree} (hAllowed : owners.Allows i (fleet.checkouts i).work work) :
      Run owners authors url branch start (fleet.edit i work) last
  | sync {fleet : Fleet ι} {last : ι → Tree} (h : Run owners authors url branch start fleet last) (i : ι)
      {message : String} (hMessage : '\x00' ∉ message.toList) (credential : Credential) :
      Run owners authors url branch start (fleet.sync (authors i) i message credential).2
        (Function.update last i ((fleet.sync (authors i) i message credential).2.published url branch))

/-! ### The invariant of a run -/

/-- A clone beside its origin. What the origin has on top of the clone's tip did not touch the paths of the
clone's owner, and the clone's files differ from its tip in those paths only. -/
structure Behind (owners : Owners ι) (link : Link) (initial : Tree) (base : Commit) (i : ι) (c : Checkout)
    (tip : Commit) : Prop where
  stands : c.Stands link tip tip tip.tree
  history : ∃ newer, base = tip.extend newer ∧
    ∀ revision ∈ newer, ∀ p, owners.owns i p → revision.tree.get? p = tip.tree.get? p
  own : ∀ p, ¬ owners.owns i p → c.work.get? p = tip.tree.get? p
  unowned : ∀ p, (∀ j, ¬ owners.owns j p) → tip.tree.get? p = initial.get? p
  coherent : c.work.Coherent
  ruleless : c.work.Ruleless

/-- What a run keeps. The origin's branch holds, for each owner, what its clone published last, and the
other paths are as they were. -/
structure Good (owners : Owners ι) (link : Link) (initial : Tree) (base : Commit) (fleet : Fleet ι)
    (last : ι → Tree) : Prop where
  serves : ∃ origin, fleet.reach link.url = .ok origin ∧ origin.Serves link base
  coherent : base.tree.Coherent
  ruleless : base.tree.Ruleless
  owned : ∀ i p, owners.owns i p → base.tree.get? p = (last i).get? p
  unowned : ∀ p, (∀ i, ¬ owners.owns i p) → base.tree.get? p = initial.get? p
  behind : ∀ i, ∃ tip, Behind owners link initial base i (fleet.checkouts i) tip

variable {owners : Owners ι} {link : Link} {initial : Tree} {base tip : Commit} {i : ι} {c : Checkout}
  {fleet : Fleet ι} {last : ι → Tree}

namespace Behind

/-- The commit a client last saw is an ancestor of the published one. -/
theorem isAncestorOf (h : Behind owners link initial base i c tip) : tip.isAncestorOf base = true := by
  obtain ⟨newer, rfl, -⟩ := h.history
  exact Commit.isAncestorOf_iff.2 (tip.mem_ancestors_extend newer)

/-- Nobody else has changed what a client owns since it last saw the remote. -/
theorem base_own (h : Behind owners link initial base i c tip) {p : TreePath} (hp : owners.owns i p) :
    base.tree.get? p = tip.tree.get? p := by
  obtain ⟨newer, rfl, hNewer⟩ := h.history
  rcases tip.extend_eq_or_revision_mem newer with hSame | hMem
  · rw [hSame]
  · exact hNewer _ hMem p hp

/-- No path has been changed both by the others and in the client's work tree. -/
theorem disjoint (h : Behind owners link initial base i c tip) (p : TreePath) :
    base.tree.get? p = tip.tree.get? p ∨ c.work.get? p = tip.tree.get? p := by
  by_cases hp : owners.owns i p
  · exact .inl (h.base_own hp)
  · exact .inr (h.own p hp)

/-- After a sync the clone's files are on its owner's paths. -/
theorem overlay_own (h : Behind owners link initial base i c tip) {p : TreePath} (hp : owners.owns i p) :
    (Tree.overlay tip.tree base.tree c.work).get? p = c.work.get? p := by
  rw [Tree.get?_overlay, if_pos (h.base_own hp)]

/-- After a sync all other paths are as the origin had them. -/
theorem overlay_other (h : Behind owners link initial base i c tip) {p : TreePath}
    (hp : ¬ owners.owns i p) : (Tree.overlay tip.tree base.tree c.work).get? p = base.tree.get? p :=
  Tree.get?_overlay_of_theirs_eq (h.own p hp)

/-- A commit of the clone's files is not among those that the origin has on top of its tip. -/
theorem fresh (h : Behind owners link initial base i c tip) (revision : Revision)
    (hTree : revision.tree = c.work) (hKnown : Commit.on (some tip) revision ∈ base.ancestors) :
    c.work = tip.tree := by
  obtain ⟨newer, rfl, hNewer⟩ := h.history
  have hMem : revision ∈ newer := by
    rcases Commit.mem_or_revision_mem_of_mem_extend hKnown with hBefore | hMem
    · exact absurd hBefore (Commit.not_mem_ancestors_of_parent (by simp))
    · exact hMem
  refine Tree.ext_get? fun p => ?_
  by_cases hp : owners.owns i p
  · rw [← hTree, hNewer revision hMem p hp]
  · exact h.own p hp

/-- A clone stays behind when another one puts a commit on top that leaves its owner's paths alone. -/
theorem on_top (h : Behind owners link initial base i c tip) {new : Commit}
    (hHistory : new = base ∨ ∃ revision, new = .on (some base) revision)
    (hSame : ∀ p, owners.owns i p → new.tree.get? p = base.tree.get? p) :
    Behind owners link initial new i c tip := by
  refine ⟨h.stands, ?_, h.own, h.unowned, h.coherent, h.ruleless⟩
  obtain ⟨newer, rfl, hNewer⟩ := h.history
  rcases hHistory with rfl | ⟨revision, rfl⟩
  · exact ⟨newer, rfl, hNewer⟩
  · refine ⟨newer ++ [revision], (tip.extend_concat newer revision).symm, ?_⟩
    intro changed hMem p hp
    rcases List.mem_append.1 hMem with hMem | hLast
    · exact hNewer changed hMem p hp
    · obtain rfl := List.mem_singleton.1 hLast
      rw [← h.base_own hp, ← hSame p hp, Commit.tree_on]

end Behind

namespace Good

/-- A path without an owner has one content everywhere. -/
theorem work_unowned (h : Good owners link initial base fleet last)
    (hBehind : Behind owners link initial base i c tip) {p : TreePath} (hp : ∀ j, ¬ owners.owns j p) :
    base.tree.get? p = c.work.get? p := by
  rw [h.unowned p hp, hBehind.own p (hp i), hBehind.unowned p hp]

/-- The changes of a clone and those of the origin can lie on a disk together. -/
theorem overlay_coherent (h : Good owners link initial base fleet last)
    (hBehind : Behind owners link initial base i c tip) :
    (Tree.overlay tip.tree base.tree c.work).Coherent := by
  intro path dir hPath hDir
  -- each side alone is coherent, and files of different owners are never below each other
  by_cases hOwnPath : owners.owns i path <;> by_cases hOwnDir : owners.owns i dir
  · rw [hBehind.overlay_own hOwnPath] at hPath
    rw [hBehind.overlay_own hOwnDir] at hDir
    exact hBehind.coherent path dir hPath hDir
  · rw [hBehind.overlay_own hOwnPath] at hPath
    rw [hBehind.overlay_other hOwnDir] at hDir
    by_cases hOwned : ∃ j, owners.owns j dir
    · obtain ⟨j, hj⟩ := hOwned
      have hNe : j ≠ i := fun hEq => hOwnDir (hEq ▸ hj)
      exact owners.apart j i dir path hNe hj hOwnPath
    · rw [h.work_unowned hBehind fun j hj => hOwned ⟨j, hj⟩] at hDir
      exact hBehind.coherent path dir hPath hDir
  · rw [hBehind.overlay_other hOwnPath] at hPath
    rw [hBehind.overlay_own hOwnDir] at hDir
    by_cases hOwned : ∃ j, owners.owns j path
    · obtain ⟨j, hj⟩ := hOwned
      have hNe : i ≠ j := fun hEq => hOwnPath (hEq ▸ hj)
      exact owners.apart i j dir path hNe hOwnDir hj
    · rw [h.work_unowned hBehind fun j hj => hOwned ⟨j, hj⟩] at hPath
      exact hBehind.coherent path dir hPath hDir
  · rw [hBehind.overlay_other hOwnPath] at hPath
    rw [hBehind.overlay_other hOwnDir] at hDir
    exact h.coherent path dir hPath hDir

/-- The merge of what is published with a client's edits holds no file of rules. -/
theorem overlay_ruleless (h : Good owners link initial base fleet last)
    (hBehind : Behind owners link initial base i c tip) :
    (Tree.overlay tip.tree base.tree c.work).Ruleless := by
  intro dir content hContent
  by_cases hOwn : owners.owns i (dir ++ [".gitignore"])
  · rw [hBehind.overlay_own hOwn] at hContent
    exact hBehind.ruleless dir content hContent
  · rw [hBehind.overlay_other hOwn] at hContent
    exact h.ruleless dir content hContent

/-- What is published is the tree of the remote's branch. -/
theorem published_eq (h : Good owners link initial base fleet last) :
    fleet.published link.url link.branch = base.tree := by
  obtain ⟨origin, hReach, hServes⟩ := h.serves
  rw [published, hReach]
  simp only [hServes.points]
  rfl

/-- Fresh clones of one remote are in good standing. -/
theorem clones {origin : Repository} {branch url : String} {reach : Reach}
    (h : origin.Offers branch tip) (hReach : reach url = .ok origin) :
    Good owners (origin.link url branch) tip.tree tip (clones origin url reach) fun _ : ι => tip.tree where
  serves := ⟨origin, hReach, h.serves url⟩
  coherent := h.coherent
  ruleless := h.ruleless
  owned _ _ _ := rfl
  unowned _ _ := rfl
  behind _ := by
    have hWork : (origin.clone url).work = tip.tree := h.headTree
    exact ⟨tip, h.clone_stands url, ⟨[], rfl, by simp⟩, fun p _ => congrArg (Tree.get? · p) hWork,
      fun _ _ => rfl, hWork ▸ h.coherent, hWork ▸ h.ruleless⟩

variable [DecidableEq ι]

/-- An edit keeps the invariant, since it touches only paths of its owner. -/
theorem edit (h : Good owners link initial base fleet last) (i : ι) {work : Tree}
    (hAllowed : owners.Allows i (fleet.checkouts i).work work) :
    Good owners link initial base (fleet.edit i work) last where
  serves := h.serves
  coherent := h.coherent
  ruleless := h.ruleless
  owned := h.owned
  unowned := h.unowned
  behind j := by
    obtain ⟨tip, hBehind⟩ := h.behind j
    refine ⟨tip, ?_⟩
    simp only [Fleet.edit]
    by_cases hj : j = i
    · subst hj
      rw [Function.update_self]
      exact ⟨hBehind.stands, hBehind.history, fun p hp => (hAllowed.own p hp).trans (hBehind.own p hp),
        hBehind.unowned, hAllowed.coherent, hAllowed.ruleless⟩
    · rw [Function.update_of_ne hj]
      exact hBehind

/-- When a clone and the origin's branch come to one commit with the changes of both, the invariant is kept
with that commit's files as what the clone published last. -/
theorem advance (h : Good owners link initial base fleet last)
    (hBehind : Behind owners link initial base i (fleet.checkouts i) tip) {new : Commit} {w : Workspace}
    (hSynced : w.SyncedAt link new)
    (hTree : new.tree = Tree.overlay tip.tree base.tree (fleet.checkouts i).work)
    (hHistory : new = base ∨ ∃ revision, new = .on (some base) revision) :
    Good owners link initial new ⟨Function.update fleet.checkouts i w.checkout, w.reach⟩
      (Function.update last i new.tree) := by
  have hOther (p : TreePath) (hp : ¬ owners.owns i p) : new.tree.get? p = base.tree.get? p := by
    rw [hTree, hBehind.overlay_other hp]
  have hCoherent : new.tree.Coherent := hTree ▸ h.overlay_coherent hBehind
  have hRuleless : new.tree.Ruleless := hTree ▸ h.overlay_ruleless hBehind
  have hUnowned (p : TreePath) (hp : ∀ j, ¬ owners.owns j p) : new.tree.get? p = initial.get? p := by
    rw [hOther p (hp i), h.unowned p hp]
  refine ⟨hSynced.serves, hCoherent, hRuleless, ?_, hUnowned, ?_⟩
  · intro j p hp
    by_cases hj : j = i
    · subst hj
      rw [Function.update_self]
    · rw [Function.update_of_ne hj, hOther p (owners.disjoint j i p hj hp), h.owned j p hp]
  -- the client that synced is up to date; the others fall behind by the commit it made
  · intro j
    by_cases hj : j = i
    · subst hj
      refine ⟨new, ?_⟩
      simp only [Function.update_self]
      exact ⟨hSynced.stands, ⟨[], rfl, by simp⟩, fun p _ => by rw [hSynced.work], hUnowned,
        hSynced.work ▸ hCoherent, hSynced.work ▸ hRuleless⟩
    · obtain ⟨tip, hBehind⟩ := h.behind j
      refine ⟨tip, ?_⟩
      simp only [Function.update_of_ne hj]
      exact hBehind.on_top hHistory fun p hp => hOther p (owners.disjoint j i p hj hp)

/-- A sync is completed and keeps the invariant, with what it left on the origin's branch as what the clone
published last. -/
theorem sync (h : Good owners link initial base fleet last) (author : Person) (i : ι) {message : String}
    (hMessage : '\x00' ∉ message.toList) (credential : Credential) :
    ∃ report new, (fleet.sync author i message credential).1 = .completed report ∧
      Good owners link initial new (fleet.sync author i message credential).2
        (Function.update last i new.tree) ∧
      ((fleet.sync author i message credential).2.checkouts i).Stands link new new new.tree ∧
      ((fleet.sync author i message credential).2.checkouts i).work = new.tree ∧
      (∀ p, owners.owns i p → new.tree.get? p = (fleet.checkouts i).work.get? p) := by
  obtain ⟨tip, hBehind⟩ := h.behind i
  obtain ⟨origin, hReach, hServes⟩ := h.serves
  obtain ⟨report, new, w', hSync, hSynced, hTree, hHistory⟩ := Workspace.sync_completed
    ⟨fleet.checkouts i, fleet.reach⟩ hBehind.stands hBehind.ruleless hReach hServes
    hBehind.isAncestorOf h.coherent hBehind.disjoint (h.overlay_coherent hBehind) hBehind.fresh author
    hMessage credential
  have hRun : fleet.sync author i message credential =
      (.completed report, ⟨Function.update fleet.checkouts i w'.checkout, w'.reach⟩) := by
    rw [Fleet.sync, hSync]
  rw [hRun]
  refine ⟨report, new, rfl, h.advance hBehind hSynced hTree hHistory, ?_, ?_, ?_⟩
  · simp only [Function.update_self]
    exact hSynced.stands
  · simp only [Function.update_self]
    exact hSynced.work
  · intro p hp
    rw [hTree, hBehind.overlay_own hp]

end Good

section Runs

variable [DecidableEq ι] {origin : Repository} {branch url : String} {reach : Reach} {authors : ι → Person}

/-- Every run from fresh clones leaves the fleet in good standing. -/
theorem Run.good (hOrigin : origin.Offers branch tip) (hReach : reach url = .ok origin)
    (hRun : Run owners authors url branch (clones origin url reach) fleet last) :
    ∃ base, Good owners (origin.link url branch) tip.tree base fleet last := by
  induction hRun with
  | start =>
      have hGood : Good owners (origin.link url branch) tip.tree tip (clones origin url reach)
          fun _ : ι => tip.tree := .clones hOrigin hReach
      have hStart : (clones origin url reach : Fleet ι).published url branch = tip.tree := hGood.published_eq
      rw [hStart]
      exact ⟨tip, hGood⟩
  | edit _ i hAllowed ih =>
      obtain ⟨base, hGood⟩ := ih
      exact ⟨base, hGood.edit i hAllowed⟩
  | sync _ i hMessage credential ih =>
      obtain ⟨base, hGood⟩ := ih
      obtain ⟨report, new, -, hGood', -⟩ := hGood.sync (authors i) i hMessage credential
      have hPublished := hGood'.published_eq
      refine ⟨new, ?_⟩
      rw [← hPublished] at hGood'
      exact hGood'

/-- No update is lost between clones of one branch. Whatever was edited and synced before and in whatever
order, the next sync of a clone is completed and leaves its branch, its files and the origin's branch at
one commit. That commit has the files of the clone on its owner's paths, and on the paths of every other
owner what that owner's clone published last. -/
theorem sync_loses_nothing (hOrigin : origin.Offers branch tip) (hReach : reach url = .ok origin)
    (hRun : Run owners authors url branch (clones origin url reach) fleet last) (i : ι) {message : String}
    (hMessage : '\x00' ∉ message.toList) (credential : Credential) :
    ∃ report fleet' origin' new,
      fleet.sync (authors i) i message credential = (.completed report, fleet') ∧
      fleet'.reach url = .ok origin' ∧ origin'.refs.get? (.branch branch) = some new ∧
      (fleet'.checkouts i).head = .branch branch ∧
      (fleet'.checkouts i).refs.get? (.branch branch) = some new ∧
      (fleet'.checkouts i).work = new.tree ∧
      (∀ p, owners.owns i p → new.tree.get? p = (fleet.checkouts i).work.get? p) ∧
      ∀ j p, j ≠ i → owners.owns j p → new.tree.get? p = (last j).get? p := by
  obtain ⟨base, hGood⟩ := hRun.good hOrigin hReach
  obtain ⟨report, new, hOutcome, hGood', hStands, hWork, hOwn⟩ :=
    hGood.sync (authors i) i hMessage credential
  obtain ⟨origin', hReach', hServes⟩ := hGood'.serves
  refine ⟨report, _, origin', new, Prod.ext hOutcome rfl, hReach', hServes.points, hStands.head,
    hStands.points, hWork, hOwn, fun j p hj hp => ?_⟩
  rw [hGood'.owned j p hp, Function.update_of_ne hj]

end Runs

/-! ### Two clones -/

/-- Who made the first commit. -/
def keeper : Person := ⟨"keeper", "keeper@example.org"⟩

/-- A commit without files. -/
def seed : Commit := ⟨⟨.empty, keeper, keeper, "seed"⟩, []⟩

/-- A repository that stands at that commit. -/
def seeded : Repository :=
  ⟨true, .branch "main", [(.branch "main", seed)], [], .ofTree .empty, none, .empty⟩

/-- Two owners of a file each. -/
def pair : Owners Bool where
  owns i p := p = [if i then "a" else "b"]
  disjoint i j p hNe hi hj := hNe (by cases i <;> cases j <;> simp_all)
  apart i j p q _ hi hj := by simp [hi, hj, TreePath.isBelow]

/-- The file of the first owner. -/
def note : Tree := ⟨[(["a"], "1".toUTF8)], List.pairwise_singleton _ _⟩

theorem get?_note (p : TreePath) : note.get? p = if p = ["a"] then some "1".toUTF8 else none := by
  by_cases hp : p = ["a"]
  · subst hp
    rfl
  · rw [if_neg hp, Tree.get?, note, List.lookup_cons, beq_false_of_ne hp]
    rfl

theorem seeded_offers : seeded.Offers "main" seed where
  bare := rfl
  head := rfl
  points := by decide
  once := by decide
  clear := by decide
  free := rfl
  coherent _ _ hPath := absurd rfl hPath
  ruleless _ _ hContent := absurd hContent (by simp [seed, Commit.tree, Commit.revision])

theorem pair_allows : pair.Allows true Tree.empty note where
  own p hp := (get?_note p).trans (if_neg hp)
  coherent path dir hPath hDir := by
    rw [get?_note] at hPath hDir
    simp only [ne_eq, ite_eq_right_iff, reduceCtorEq, imp_false, not_not] at hPath hDir
    rw [hPath, hDir, TreePath.not_isBelow_self]
  ruleless dir content hContent := by
    rw [get?_note, if_neg (by simp [List.append_eq_singleton_iff])] at hContent
    exact absurd hContent (by simp)

/-- One clone writes its file and syncs. -/
theorem sync_loses_nothing_of_note :
    seeded.Offers "main" seed ∧
      ∃ report fleet' origin' new,
        (((clones seeded "o" fun _ => .ok seeded : Fleet Bool).edit true note).sync keeper true "note"
          (.password "u" "p")) = (.completed report, fleet') ∧
        fleet'.reach "o" = .ok origin' ∧ origin'.refs.get? (.branch "main") = some new ∧
        new.tree.get? ["a"] = some "1".toUTF8 := by
  have hRun : Run pair (fun _ => keeper) "o" "main" (clones seeded "o" fun _ => .ok seeded)
      ((clones seeded "o" fun _ => .ok seeded).edit true note) _ := .edit .start true pair_allows
  have hMessage : '\x00' ∉ "note".toList := by decide
  obtain ⟨report, fleet', origin', new, hSync, hReach, hTip, -, -, -, hOwn, -⟩ :=
    sync_loses_nothing seeded_offers rfl hRun true hMessage (.password "u" "p")
  exact ⟨seeded_offers, report, fleet', origin', new, hSync, hReach, hTip, hOwn ["a"] rfl⟩

/-- A sync with something to record is not completed when nobody can be named as its author, or when its
message holds a character that no commit can hold. -/
theorem sync_refused :
    ((Workspace.backend (Person.ofParts? "<>" "x")).execute .silent (.sync originName "note")
      (.password "u" "p") ⟨{ seeded.clone "o" with work := note }, fun _ => .ok seeded⟩).1.isSuccess =
        false ∧
      (Workspace.sync keeper "a\x00b" (.password "u" "p")
        ⟨{ seeded.clone "o" with work := note }, fun _ => .ok seeded⟩).1.isSuccess = false := by
  decide +kernel

end Fleet

end VaultSync.Git
