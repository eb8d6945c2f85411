import VaultSync.Git.Reference
import VaultSync.Sync.Failure
/-!
A repository, and a repository together with its work tree. What other programs leave in the directory
of a repository counts as well: a lock keeps its file from being written.
-/

namespace VaultSync.Git

/-- Where a repository stands. -/
inductive Head
  | branch (name : String)
  /-- At a commit without being on a branch. -/
  | detached (commit : Commit)
  /-- What stands there makes no sense. -/
  | unreadable
deriving DecidableEq

/-- What the next commit will hold. A path in conflict holds nothing yet. -/
structure Index where
  staged : Tree
  conflicts : List TreePath
deriving DecidableEq

def Index.ofTree (tree : Tree) : Index := ⟨tree, []⟩

/-- What a rebase that stopped goes back to when it is aborted. -/
structure StoppedRebase where
  branch : String
  tip : Commit
deriving DecidableEq

/-- A repository. -/
structure Repository where
  bare : Bool
  head : Head
  refs : Refs
  /-- Names and addresses of other repositories. -/
  remotes : List (String × String)
  index : Index
  rebase : Option StoppedRebase
  /-- Files that others left in the directory of the repository. -/
  strays : Tree
deriving DecidableEq

/-- A repository and the files beside it. -/
structure Checkout extends Repository where
  work : Tree
deriving DecidableEq

/-- The failure of a step, whose cause is the repository itself. -/
def failed (step : String) : TransportError :=
  .internal (step ++ " failed") .repository

namespace Repository

/-- A repository without commits, on the branch that comes first. -/
def init (bare : Bool) : Repository :=
  ⟨bare, .branch "master", [], [], .ofTree .empty, none, .empty⟩

/-- The commit that a repository stands at. A branch may be without one. -/
def headCommit? (repo : Repository) : Option Commit :=
  match repo.head with
  | .branch name => repo.refs.get? (.branch name)
  | .detached commit => some commit
  | .unreadable => none

/-- The files of the commit that a repository stands at. -/
def headTree (repo : Repository) : Tree :=
  treeOf repo.headCommit?

/-- The file that keeps another one from being written. -/
def lockOf (path : TreePath) : TreePath :=
  path.dropLast ++ [path.getLastD "" ++ ".lock"]

/-- Whether a file of the repository cannot be written. -/
def isLocked (repo : Repository) (path : TreePath) : Bool :=
  (repo.strays.get? (lockOf path)).isSome

/-- Lets a name point at a commit, unless the name is locked or taken. -/
def point (repo : Repository) (name : RefName) (commit : Commit) : Option Repository :=
  if repo.isLocked name.path || repo.refs.clashes name then none
  else some { repo with refs := repo.refs.set name commit }

/-- Moves to another place, unless that is locked. -/
def moveTo (repo : Repository) (head : Head) : Option Repository :=
  if repo.isLocked ["HEAD"] then none else some { repo with head }

/-- Lets the branch that the repository is on, or else the repository itself, stand at a commit. -/
def advance (repo : Repository) (commit : Commit) : Option Repository :=
  match repo.head with
  | .branch name => repo.point (.branch name) commit
  | .detached _ => repo.moveTo (.detached commit)
  | .unreadable => none

/-- Puts an index in place, unless that is locked. -/
def writeIndex (repo : Repository) (index : Index) : Option Repository :=
  if repo.isLocked ["index"] then none else some { repo with index }

/-- The directories that a rebase in progress is kept in. -/
def rebaseDirs : List String := ["rebase-merge", "rebase-apply"]

def hasStrayRebase (repo : Repository) : Bool :=
  rebaseDirs.any fun dir => repo.strays.hasBelow [dir]

def isRebasing (repo : Repository) : Bool :=
  repo.rebase.isSome || repo.hasStrayRebase

/-- The files that mark something in progress, the directories of a rebase aside. -/
def progressMarks : List String :=
  ["MERGE_HEAD", "MERGE_MODE", "MERGE_MSG", "REVERT_HEAD", "CHERRY_PICK_HEAD", "BISECT_LOG"]

def clearProgress (repo : Repository) : Repository :=
  { repo with
    rebase := none
    strays := Tree.tabulate repo.strays.paths fun path =>
      if path.head?.any fun name => rebaseDirs.contains name || progressMarks.contains name then none
      else repo.strays.get? path }

/-- What is in progress. -/
inductive Activity
  | clean
  | merge
  | revert
  | cherryPick
  | bisect
  | rebase
  | rebaseInteractive
  | rebaseMerge
  | applyMailbox
  | applyMailboxOrRebase
deriving DecidableEq, Repr

/-- What is in progress, by the marks that there are. -/
def activity (repo : Repository) : Activity :=
  let has := fun (path : TreePath) => (repo.strays.get? path).isSome
  if has ["rebase-merge", "interactive"] then .rebaseInteractive
  else if repo.rebase.isSome || repo.strays.hasBelow ["rebase-merge"] then .rebaseMerge
  else if has ["rebase-apply", "rebasing"] then .rebase
  else if has ["rebase-apply", "applying"] then .applyMailbox
  else if repo.strays.hasBelow ["rebase-apply"] then .applyMailboxOrRebase
  else if has ["MERGE_HEAD"] then .merge
  else if has ["REVERT_HEAD"] then .revert
  else if has ["CHERRY_PICK_HEAD"] then .cherryPick
  else if has ["BISECT_LOG"] then .bisect
  else .clean

end Repository

/-- Changes the repository of a checkout, as far as that can be done. -/
def Checkout.within (c : Checkout) (change : Repository → Option Repository) : Option Checkout :=
  (change c.toRepository).map fun repo => { c with toRepository := repo }

end VaultSync.Git
