import Mathlib.Data.List.TakeWhile
import VaultSync.Proofs.Git.Detached
import VaultSync.Proofs.Git.Outcome
import VaultSync.Proofs.Git.Uncommitted

/-! What a reset to the remote makes of a repository on a branch. Staging comes first, so that the index knows
every file, and a forced switch then takes away each of them that the target does not have. What was
committed, staged or changed before leaves no trace in the files. -/
namespace VaultSync.Git

/-! ### Short names -/

namespace RefName

/-- A name that may be given to a reference has no mark that leads on from it. -/
theorem notMem_of_isWellFormed {text : String} (h : isWellFormed text = true) {c : Char}
    (hMark : isAllowed c = false) : c ∉ text.toList := by
  intro hMem
  rw [isWellFormed] at h
  simp only [Bool.and_eq_true] at h
  have hAllowed := List.all_eq_true.1 h.1.1.1.1 c hMem
  rw [hMark] at hAllowed
  cases hAllowed

end RefName

/-- A full name that only one reference can have leads to that reference or nowhere. -/
theorem Refs.pointedAt?_of_only {refs : Refs} {name : RefName} {full : String} {commit : Commit}
    (hOnly : ∀ ref ∈ refs, ref.1.text = full → ref.1 = name) (hPoints : refs.get? name = some commit) :
    refs.pointedAt? full = if name.text = full then some commit else none := by
  rw [Refs.pointedAt?]
  cases hFind : (refs.map (·.1)).find? (·.text = full) with
  | none =>
      have hMem : name ∈ refs.map (·.1) := List.mem_map.2 ⟨_, Refs.mem_of_get? hPoints, rfl⟩
      rw [if_neg (by simpa using List.find?_eq_none.1 hFind name hMem)]
      rfl
  | some other =>
      obtain ⟨ref, hRef, rfl⟩ := List.mem_map.1 (List.mem_of_find?_eq_some hFind)
      have hText : ref.1.text = full := by simpa using List.find?_some hFind
      obtain rfl := hOnly ref hRef hText
      rw [if_pos hText]
      exact hPoints

/-- The names of the references that there may be once a repository was fetched from. -/
def Repository.NamedAfterFetch (repo origin : Repository) (remote : String) (name : RefName) : Prop :=
  (∃ commit, (name, commit) ∈ repo.refs) ∨
    ∃ branch commit, (.branch branch, commit) ∈ origin.refs ∧ name = .tracking remote branch

/-- A branch of a remote, when it is named in short, is what is known about it: no other reference has its
full name or one of the four that are tried before it. -/
def Repository.Unshadowed (repo origin : Repository) (remote branch : String) : Prop :=
  ∀ name, repo.NamedAfterFetch origin remote name →
    name.text ∈ (Checkout.fullNames (remote ++ "/" ++ branch)).take 5 → name = .tracking remote branch

namespace Checkout

variable {c c' : Checkout} {remote branch short step : String} {commit : Commit} {source target : Tree}

/-- A short name stands for the only reference that has one of the first full names that are tried. -/
theorem named?_of_only {name : RefName} {n : Nat} (hHead : short ≠ "HEAD" ∧ short ≠ "@")
    (hFull : name.text ∈ (fullNames short).take n)
    (hOnly : ∀ ref ∈ c.refs, ref.1.text ∈ (fullNames short).take n → ref.1 = name)
    (hPoints : c.refs.get? name = some commit) : c.named? short = some commit := by
  have hTried (full : String) (hMem : full ∈ (fullNames short).take n) :
      c.refs.pointedAt? full = if name.text = full then some commit else none :=
    Refs.pointedAt?_of_only (fun ref hRef hText => hOnly ref hRef (hText ▸ hMem)) hPoints
  have hFirst : ((fullNames short).take n).findSome? c.refs.pointedAt? = some commit := by
    cases hFound : ((fullNames short).take n).findSome? c.refs.pointedAt? with
    | none =>
        have hHere := List.findSome?_eq_none_iff.1 hFound _ hFull
        rw [hTried _ hFull, if_pos rfl] at hHere
        cases hHere
    | some found =>
        obtain ⟨full, hMem, hSome⟩ := List.exists_of_findSome?_eq_some hFound
        rw [hTried full hMem, Option.ite_none_right_eq_some] at hSome
        rw [hSome.2]
  rw [named?, if_neg (by simp [hHead]), ← List.take_append_drop n (fullNames short), List.findSome?_append,
    hFirst]
  rfl

/-- A name without marks is looked up as it is. -/
theorem resolve?_of_unmarked (hTilde : '~' ∉ short.toList) (hCaret : '^' ∉ short.toList) :
    c.resolve? short = c.named? short := by
  have hName : short.toList.takeWhile (fun ch => !(ch = '~' || ch = '^')) = short.toList := by
    rw [List.takeWhile_eq_self_iff]
    intro ch hMem
    have hNot : ch ≠ '~' ∧ ch ≠ '^' := ⟨fun h => hTilde (h ▸ hMem), fun h => hCaret (h ▸ hMem)⟩
    simp [hNot]
  simp only [resolve?, hName, List.drop_length, String.ofList_toList]
  cases c.named? short <;> rfl

/-- A branch of a remote that is not shadowed is found where it was last seen. -/
theorem resolve?_tracking (hName : RefName.isWellFormed (RefName.tracking remote branch).text = true)
    (hOnly : ∀ ref ∈ c.refs, ref.1.text ∈ (fullNames (remote ++ "/" ++ branch)).take 5 →
      ref.1 = .tracking remote branch)
    (hPoints : c.refs.get? (.tracking remote branch) = some commit) :
    c.resolve? (remote ++ "/" ++ branch) = some commit := by
  have hText : (RefName.tracking remote branch).text = "refs/remotes/" ++ (remote ++ "/" ++ branch) := by
    simp only [RefName.text, String.append_assoc]
  have hFull : (RefName.tracking remote branch).text ∈ (fullNames (remote ++ "/" ++ branch)).take 5 := by
    rw [hText]
    exact List.mem_of_getElem? (show _[4]? = _ from rfl)
  have hChars (ch : Char) (hMem : ch ∈ (remote ++ "/" ++ branch).toList) :
      ch ∈ (RefName.tracking remote branch).text.toList := by
    rw [hText, String.toList_append]
    exact List.mem_append_right _ hMem
  have hSlash : '/' ∈ (remote ++ "/" ++ branch).toList := by simp
  rw [resolve?_of_unmarked (fun hMem => RefName.notMem_of_isWellFormed hName rfl (hChars _ hMem))
    (fun hMem => RefName.notMem_of_isWellFormed hName rfl (hChars _ hMem))]
  refine named?_of_only ⟨?_, ?_⟩ hFull hOnly hPoints
  · intro hHead
    rw [hHead] at hSlash
    exact absurd hSlash (by decide)
  · intro hAt
    rw [hAt] at hSlash
    exact absurd hSlash (by decide)

/-! ### Files -/

/-- A forced switch takes away a file that the index knows, if the trees do not have it. -/
theorem isTakenAlong_of_staged {path : TreePath} (h : c.index.staged.get? path ≠ none) :
    c.isTakenAlong source target path = true := by
  rw [isTakenAlong]
  split
  · rename_i dir hDir
    have hMem := List.mem_of_find?_eq_some hDir
    rw [directoriesTo, List.mem_map] at hMem
    obtain ⟨k, hk, rfl⟩ := hMem
    rw [List.mem_filter, List.mem_range] at hk
    have hBelow : path.isBelow (path.take k) = true :=
      TreePath.isBelow_iff.2 ⟨List.take_prefix k path, by rw [List.length_take]; omega⟩
    rw [Tree.hasBelow_iff.2 ⟨path, h, hBelow⟩, Bool.true_or]
  · simpa [isTracked, Option.isSome_iff_ne_none] using Or.inl h

/-- Where the index knows every file a forced switch leaves those of the target, whatever they were. -/
theorem forced_of_staged (h : ∀ path, c.work.get? path ≠ none → c.index.staged.get? path ≠ none) :
    c.forced source target = target := by
  rw [forced]
  refine Tree.tabulate_eq (fun path hPath => Tree.mem_unionPaths.2 ⟨target, by simp, hPath⟩) fun path _ => ?_
  rw [afterForce]
  cases hTarget : target.get? path with
  | some content => rfl
  | none =>
      dsimp only
      split
      · rfl
      · split
        · rfl
        · split
          · rfl
          · rename_i hLeft
            exact Classical.byContradiction fun hWork => hLeft (isTakenAlong_of_staged (h path hWork))

/-- After a reset the index is the target's tree, and the work tree is forced to it. -/
theorem resetTo_files (h : c.resetTo step commit = (.ok (), c')) :
    c'.work = c.forced c.headTree commit.tree ∧ c'.index = .ofTree commit.tree := by
  rw [resetTo] at h
  dsimp only at h
  split at h
  · cases h
  · rename_i written hWrite
    split at h
    · cases h
    · rename_i advanced hAdvance
      obtain ⟨-, rfl⟩ := Prod.mk.inj h
      obtain ⟨repo, hRepo, rfl⟩ := within_eq_some_iff.1 hWrite
      obtain ⟨-, rfl⟩ := Repository.writeIndex_eq_some_iff.1 hRepo
      obtain ⟨repo, hRepo, rfl⟩ := within_eq_some_iff.1 hAdvance
      refine ⟨rfl, ?_⟩
      rw [(Repository.advance_eq_some hRepo).1]
      rfl

/-- Where the files and the index are those of the last commit a status counts nothing. -/
theorem status_of_aligned (hHead : c.head ≠ .unreadable) (hIndex : c.index = .ofTree c.work)
    (hTree : c.headTree = c.work) : c.status = .ok .clean := by
  have hCount (standing : Standing) (hKind : standing ≠ .same) : c.count standing = 0 := by
    refine count_eq_zero_iff.2 fun path _ => ?_
    rw [standing_of_staged hIndex, if_pos (congrArg (·.get? path) hTree)]
    exact hKind.symm
  rw [status, if_neg hHead, hCount .changed (by decide), hCount .missing (by decide),
    hCount .untracked (by decide)]
  rfl

/-- Without rules staging lets the index know every file. -/
theorem staged_of_ruleless (hOwn : c.Ruleless) (hRules : c.work.Ruleless) {path : TreePath}
    (hFile : c.work.get? path ≠ none) : c.stagedAll.staged.get? path ≠ none := by
  rw [get?_stagedAll, stagedContent, isIgnored_eq_false hOwn hRules, Bool.not_false, Bool.or_true, if_pos rfl]
  exact hFile

end Checkout

/-! ### The reset -/

namespace Workspace

variable {w w' : Workspace} {author : Option Person} {remote branch head url : String} {origin : Repository}
  {commit : Commit} {credential : Credential} {report : SyncReport}

/-- A reset to the remote that is completed leaves a repository on its branch, which points at the commit
that the remote's branch had when it was fetched, with the files of that commit and no others. Whatever was
staged, changed, missing, untracked or committed before, nothing of it is left to see. No rules leave files
out, the remote and its branch have names that references can have, and the short name of the remote's
branch stands for no other reference. -/
theorem resetToRemote_aligns (hHead : w.checkout.head = .branch head) (hOwn : w.checkout.Ruleless)
    (hRules : w.checkout.work.Ruleless) (hUrl : w.checkout.remotes.lookup remote = some url)
    (hOrigin : w.reach url = .ok origin) (hOnce : (origin.refs.map (·.1)).Nodup)
    (hBranch : origin.refs.get? (.branch branch) = some commit)
    (hName : RefName.isWellFormed (RefName.tracking remote branch).text = true)
    (hUnshadowed : w.checkout.Unshadowed origin remote branch)
    (h : resetToRemote author remote branch credential w = (.completed report, w')) :
    w'.checkout.head = .branch head ∧ w'.checkout.refs.get? (.branch head) = some commit ∧
      w'.checkout.work = commit.tree ∧ w'.checkout.status = .ok .clean := by
  obtain ⟨fetched, target, hFetch, hTarget, hReset⟩ := resetToRemote_steps h
  have hFetches := Checkout.fetches hFetch
  have hOnly : ∀ ref ∈ fetched.refs, ref.1.text ∈ (Checkout.fullNames (remote ++ "/" ++ branch)).take 5 →
      ref.1 = .tracking remote branch := by
    intro ref hRef
    refine hUnshadowed ref.1 ?_
    rcases hFetches.sources ref hRef with hOld | ⟨url', origin', name, hUrl', hOrigin', hTracked, hThere⟩
    · exact .inl ⟨ref.2, hOld⟩
    · obtain rfl : url = url' := Option.some.inj (hUrl.symm.trans hUrl')
      obtain rfl : origin = origin' := Except.ok.inj (hOrigin.symm.trans hOrigin')
      exact .inr ⟨name, ref.2, hThere, hTracked⟩
  have hSeen := Checkout.fetch_get? (c := { w.checkout with index := w.checkout.stagedAll }) hUrl hOrigin hOnce
    hBranch hFetch
  obtain rfl : target = commit :=
    Option.some.inj (hTarget.symm.trans (Checkout.resolve?_tracking hName hOnly hSeen))
  obtain ⟨-, hCommit, hOn, -⟩ := Checkout.resetTo_eq_ok hReset
  have hStays : w'.checkout.head = .branch head := hOn head (by rw [hFetches.rest]; exact hHead)
  obtain ⟨hWork, hIndex⟩ := Checkout.resetTo_files hReset
  -- without ignored files all was staged, so nothing that is forced escapes the target
  have hForced : fetched.forced fetched.headTree target.tree = target.tree := by
    refine Checkout.forced_of_staged fun path hFile => ?_
    rw [hFetches.rest] at hFile ⊢
    exact Checkout.staged_of_ruleless hOwn hRules hFile
  rw [hForced] at hWork
  have hTree : w'.checkout.headTree = w'.checkout.work := by rw [Repository.headTree, hCommit, hWork]; rfl
  refine ⟨hStays, ?_, hWork, Checkout.status_of_aligned ?_ (by rw [hIndex, hWork]) hTree⟩
  · rw [Repository.headCommit?, hStays] at hCommit
    exact hCommit
  · rw [hStays]
    exact Head.noConfusion

open Checkout (standingAt reachAt writer writes)

/-- A reset of a repository with a commit of its own, a changed, a missing, a staged and an untracked file. -/
theorem resetToRemote_aligns_diverged :
    let shared := writes "a" "1" none
    let ours := writes "b" "2" (some shared)
    let theirs := writes "c" "3" (some shared)
    let work := (Tree.empty.put ["a"] "4".toUTF8).put ["new"] "5".toUTF8
    let c := { standingAt ours with work, index := .ofTree (ours.tree.put ["d"] "6".toUTF8) }
    let reset := resetToRemote (some writer) "origin" "master" (.password "" "") ⟨c, reachAt theirs⟩
    c.status.toOption = some ⟨1, 2, 1⟩ ∧ reset.1.isSuccess = true ∧
      reset.2.checkout.refs.get? (.branch "master") = some theirs ∧
      reset.2.checkout.work = theirs.tree ∧ reset.2.checkout.status = .ok .clean := by
  intro shared ours theirs work c reset
  have hSuccess : reset.1.isSuccess = true := by decide +kernel
  obtain ⟨report, hReport⟩ := SyncOutcome.exists_report hSuccess
  have hRules : work.Ruleless := (Tree.plain_of_paths (by decide +kernel)).ruleless
  have hUnshadowed : c.Unshadowed { Repository.init true with refs := [(.branch "master", theirs)] }
      "origin" "master" := by
    rintro name (⟨commit, hMem⟩ | ⟨branch, commit, hMem, rfl⟩) hText
    · obtain ⟨rfl, -⟩ := Prod.mk.inj (List.mem_singleton.1 hMem)
      exact absurd hText (by decide)
    · obtain ⟨hBranch, -⟩ := Prod.mk.inj (List.mem_singleton.1 hMem)
      rw [RefName.branch.inj hBranch]
  obtain ⟨-, hPoints, hWork, hStatus⟩ := resetToRemote_aligns rfl (Repository.ruleless_of_strays rfl) hRules rfl
    rfl (by decide) rfl (by decide +kernel) hUnshadowed hReport
  exact ⟨by decide +kernel, hSuccess, hPoints, hWork, hStatus⟩

end Workspace

end VaultSync.Git
