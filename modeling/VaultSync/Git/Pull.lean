import VaultSync.Git.Rebase
import VaultSync.Git.Remote
/-!
Pulling: fetch, and then bring the current branch to what the remote's has. Uncommitted changes to
tracked files keep a pull from happening when there is something to bring in.
-/

namespace VaultSync.Git.Checkout

/-- The message for changes that a pull would overwrite. -/
def localChangesMessage : String :=
  "uncommitted changes in the store would be overwritten by the pull; " ++
    "run 'passync sync' to commit and push them"

/-- Brings the work tree to a later commit of the branch, and then the branch. -/
def fastForward (branch : String) (base : Commit) (c : Checkout) :
    Except TransportError RebaseStatus × Checkout :=
  match c.switch c.headTree base.tree with
  | .inWay => (.error (.failed localChangesMessage), c)
  | .broken c => (.error (failed "checkout"), c)
  | .done c =>
    match c.within (·.point (.branch branch) base) with
    | none => (.error (failed "fast-forward"), c)
    | some c =>
      match c.within (·.moveTo (.branch branch)) with
      | none => (.error (failed "fast-forward"), c)
      | some c => (.ok .fastForward, c)

def integrate (committer : Option Person) (branch onto : String) (tip base : Commit)
    (c : Checkout) : Except TransportError RebaseStatus × Checkout :=
  if base.isAncestorOf tip then (.ok .upToDate, c)
  else
    match c.status with
    | .error e => (.error e, c)
    | .ok report =>
      if report.pending ≠ 0 then (.error (.failed localChangesMessage), c)
      else if tip.isAncestorOf base then c.fastForward branch base
      else c.rebaseOnto committer branch onto tip base

/-- Brings a branch that has no commit to one of the remote. -/
def adopt (branch : String) (base : Commit) (c : Checkout) : Except TransportError RebaseStatus × Checkout :=
  match c.status with
  | .error e => (.error e, c)
  | .ok report =>
    if report.pending ≠ 0 then (.error (.failed localChangesMessage), c) else c.fastForward branch base

/-- Pulls the current branch from a remote. A branch that the remote does not have is up to date. -/
def pull (committer : Option Person) (reach : Reach) (remote : String) (c : Checkout) :
    Except TransportError RebaseStatus × Checkout :=
  match c.currentBranch with
  | .error e => (.error e, c)
  | .ok branch =>
    match c.fetch reach remote with
    | (.error e, c) => (.error e, c)
    | (.ok (), c) =>
      let tracking := RefName.tracking remote branch
      match c.headCommit?, c.refs.get? tracking with
      | some tip, some commit => c.integrate committer branch tracking.text tip commit
      | none, some commit => c.adopt branch commit
      | _, none => (.ok .upToDate, c)

end VaultSync.Git.Checkout
