import VaultSync.Git.Merge
import VaultSync.Git.Switch
/-!
Rebasing a branch: its commits that the new base does not have are replayed on the base one after the
other. A commit that changes nothing there is dropped; one that does not fit stops the rebase,
which then stays in progress with the branch still where it was.
-/

namespace VaultSync.Git.Checkout

/-- How the replay of a commit ends. -/
inductive Replayed
  | applied (c : Checkout)
  /-- Conflicts are left for the user. -/
  | stopped (c : Checkout)
  | broken (step : String) (c : Checkout)

/-- Whether a path that a merge changes holds something that is not committed. -/
def isAtRisk (c : Checkout) (path : TreePath) : Bool :=
  match c.standing path with
  | .missing | .changed | .untracked => true
  | .same | .ignored | .conflicted => false

/-- A path with a number behind its last name. -/
def numbered (path : TreePath) (number : Nat) : TreePath :=
  path.dropLast ++ [path.getLastD "" ++ "_" ++ toString number]

/-- Where nothing lies: the place itself, or the first of those with a number that is free. -/
def freePlace? (work : Tree) (place : TreePath) : Option TreePath :=
  (place :: (List.range work.paths.length).map (numbered place)).find? (!work.isTaken ·)

/-- Where a conflict is shown: at its path, or else where nothing lies. -/
def placeFor? (work : Tree) (conflict : Conflict) : Option TreePath :=
  if conflict.shownAt = conflict.path then some conflict.path else freePlace? work conflict.shownAt

/-- The work tree with a conflict shown in it, unless its file has no place there. -/
def showConflict (work : Tree) (conflict : Conflict) : Option Tree :=
  match conflict.shown with
  | none => some work
  | some content =>
    (placeFor? work conflict).bind fun place =>
      if work.blocks place || work.hasBelow place then none else some (work.put place content)

/-- Shows the conflicts of a merge in the work tree, up to the first one that cannot be shown. -/
def showConflicts : Tree → List Conflict → Bool × Tree
  | work, [] => (true, work)
  | work, conflict :: rest =>
    match showConflict work conflict with
    | some work => showConflicts work rest
    | none => (false, work)

/-- Merges the change that a commit made into the current commit, and records the result. -/
def replay (committer : Person) (onto : String) (c : Checkout) (commit : Commit) : Replayed :=
  let ours := c.headTree
  let merged := mergeTrees ⟨onto, commit.revision.summary⟩ (treeOf commit.parent?) ours commit.tree
  let touched := (Tree.unionPaths [ours, merged.settled]).filter fun p =>
    merged.settled.get? p ≠ ours.get? p
  if (touched ++ merged.conflicts.map (·.path)).any c.isAtRisk then .broken "rebase" c
  else
    match c.switch ours merged.settled with
    | .inWay => .broken "rebase" c
    | .broken c => .broken "rebase" c
    | .done switched =>
      if !merged.conflicts.isEmpty then
        match showConflicts switched.work merged.conflicts with
        | (true, work) =>
          .stopped { switched with
            work, index := ⟨merged.settled, merged.conflicts.map (·.path)⟩ }
        | (false, work) => .broken "rebase" { c with work }
      else if merged.settled = ours then .applied switched
      else
        let revision := { commit.revision with tree := merged.settled, committer }
        match switched.within (·.advance (.on switched.headCommit? revision)) with
        | some c => .applied c
        | none => .broken "rebase commit" switched

def replayAll (committer : Person) (onto : String) : Checkout → List Commit → Replayed
  | c, [] => .applied c
  | c, commit :: rest =>
    match replay committer onto c commit with
    | .applied c => replayAll committer onto c rest
    | .stopped c => .stopped c
    | .broken step c => .broken step c

/-- Goes to the base, where the replay starts. -/
def startRebase (c : Checkout) (branch : String) (tip base : Commit) :
    Except TransportError Unit × Checkout :=
  if c.isRebasing || !c.index.conflicts.isEmpty then (.error (failed "start rebase"), c)
  else
    match c.switch c.headTree base.tree with
    | .inWay => (.error (failed "start rebase"), c)
    | .broken c => (.error (failed "start rebase"), c)
    | .done c =>
      match c.within (·.moveTo (.detached base)) with
      | none => (.error (failed "start rebase"), c)
      | some c => (.ok (), { c with rebase := some ⟨branch, tip⟩ })

/-- Lets the branch have the replayed commits and goes back to it. -/
def finishRebase (branch : String) (c : Checkout) : Except TransportError RebaseStatus × Checkout :=
  match c.headCommit? with
  | none => (.error (failed "finish rebase"), c)
  | some commit =>
    match c.within (·.point (.branch branch) commit) with
    | none => (.error (failed "finish rebase"), c)
    | some c =>
      match c.within (·.moveTo (.branch branch)) with
      | none => (.error (failed "finish rebase"), c)
      | some c => (.ok .ok, { c with rebase := none })

/-- Rebases a branch, whose commit is the current one, onto a base. -/
def rebaseOnto (committer : Option Person) (branch onto : String) (tip base : Commit)
    (c : Checkout) : Except TransportError RebaseStatus × Checkout :=
  match committer with
  | none => (.error (failed "build signature"), c)
  | some committer =>
    match c.startRebase branch tip base with
    | (.error e, c) => (.error e, c)
    | (.ok (), c) =>
      match replayAll committer onto c (tip.ahead base) with
      | .stopped c => (.ok .stopped, c)
      | .broken step c => (.error (failed step), c)
      | .applied c => c.finishRebase branch

/-- Whether a rebase that others left in progress can be read at all. -/
def strayRebaseIsNamed (c : Checkout) (dir : String) : Bool :=
  (c.strays.get? [dir, "head-name"]).isSome && (c.strays.get? [dir, "orig-head"]).isSome

/-- Gives up a rebase in progress: back to its branch, with the files of the commit that the branch
had. Without one there is nothing to do. -/
def abortRebase (c : Checkout) : Except TransportError Unit × Checkout :=
  if c.strays.hasBelow ["rebase-apply"] then
    (if c.strayRebaseIsNamed "rebase-apply" then .error (failed "open rebase") else .ok (), c)
  else
    match c.rebase with
    | none =>
      (if c.strayRebaseIsNamed "rebase-merge" then .error (failed "open rebase") else .ok (), c)
    | some stopped =>
      match c.within (·.moveTo (.branch stopped.branch)) with
      | none => (.error (failed "abort rebase"), c)
      | some c => c.resetTo "abort rebase" stopped.tip

end VaultSync.Git.Checkout
