import VaultSync.Git.Switch
/-!
Other repositories: what is fetched from them, pushed to them, and cloned.
-/

namespace VaultSync.Git

/-- Why there is no repository at an address. -/
inductive Unreachable
  /-- There is nothing that could be asked. -/
  | network
  /-- There is something, but no repository. -/
  | notRepository
deriving DecidableEq, Repr

/-- The failure of a step that needed the repository. -/
def Unreachable.failure (step : String) : Unreachable → TransportError
  | network => .remote (step ++ " failed") .repository
  | notRepository => failed step

/-- The repositories at addresses. -/
abbrev Reach := String → Except Unreachable Repository

/-- The branches of a repository, in the order of their names. -/
def Repository.branches (repo : Repository) : List (String × Commit) :=
  (repo.refs.filterMap fun
    | (.branch name, commit) => some (name, commit)
    | (.tracking .., _) => none).mergeSort fun a b => a.1 ≤ b.1

/-- The branches that differ from how they were last seen on a remote. -/
def Repository.unseen (repo : Repository) (remote : String) (branches : List (String × Commit)) :
    List (String × Commit) :=
  branches.filter fun b => repo.refs.get? (.tracking remote b.1) ≠ some b.2

/-- Remembers branches as they are seen on a remote. It ends at the first one that cannot be written.
-/
def Repository.remember (remote : String) (repo : Repository) : List (String × Commit) → Bool × Repository
  | [] => (true, repo)
  | (name, commit) :: rest =>
    match repo.point (.tracking remote name) commit with
    | none => (false, repo)
    | some repo => repo.remember remote rest

namespace Checkout

def fetch (reach : Reach) (remote : String) (c : Checkout) : Except TransportError Unit × Checkout :=
  match c.remotes.lookup remote with
  | none => (.error (failed "find remote"), c)
  | some url =>
    match reach url with
    | .error u => (.error (u.failure "fetch"), c)
    | .ok origin =>
      let (done, repo) := c.remember remote (c.unseen remote origin.branches)
      (if done then .ok () else .error (failed "fetch"), { c with toRepository := repo })

/-- The message for a head that is on no branch. -/
def detachedMessage : String := "HEAD is detached; run 'passync unstick' to recover"

/-- The branch that the repository is on. A branch without a commit does not count. -/
def currentBranch (c : Checkout) : Except TransportError String :=
  match c.head with
  | .unreadable => .error (failed "resolve HEAD")
  | .detached _ => .error (.failed detachedMessage)
  | .branch name => if c.headCommit?.isSome then .ok name else .error (failed "resolve HEAD")

end Checkout

/-- A checkout and the repositories that it can reach. -/
structure Workspace where
  checkout : Checkout
  reach : Reach

namespace Workspace

def place (w : Workspace) (url : String) (repo : Repository) : Workspace :=
  { w with reach := fun other => if other = url then .ok repo else w.reach other }

/-- The update of a branch that a push reports. -/
def update (branch : String) (status : RefUpdateStatus) (message : Option String) : List RefUpdate :=
  [⟨(RefName.branch branch).text, status, message⟩]

/-- Lets the branch of a remote point at a commit. The remote refuses to lose commits unless forced. -/
def publish (remote url branch : String) (force : Bool) (commit : Commit) (w : Workspace) :
    Except TransportError (List RefUpdate) × Workspace :=
  match w.reach url with
  | .error u => (.error (u.failure "push"), w)
  | .ok origin =>
    let loses := (origin.refs.get? (.branch branch)).any fun c => !c.isAncestorOf commit
    if !force && loses then (.ok (update branch .rejectedNonFastForward none), w)
    else if !origin.bare then (.error (failed "push"), w)
    else
      match origin.point (.branch branch) commit with
      | none => (.ok (update branch .rejectedOtherReason (some Cause.repositoryMessage)), w)
      | some origin =>
        let w := w.place url origin
        match w.checkout.within (·.point (.tracking remote branch) commit) with
        | none => (.error (failed "push"), w)
        | some c => (.ok (update branch .ok none), { w with checkout := c })

/-- Publishes a branch, the current one if none is named. A branch that was last seen on the remote at
the same commit is not sent again. -/
def push (remote : String) (branch : Option String) (force : Bool) (w : Workspace) :
    Except TransportError (List RefUpdate) × Workspace :=
  match (branch.map .ok).getD w.checkout.currentBranch with
  | .error e => (.error e, w)
  | .ok branch =>
    match w.checkout.refs.get? (.branch branch) with
    | none => (.error (failed "resolve branch"), w)
    | some commit =>
      if w.checkout.refs.get? (.tracking remote branch) = some commit then
        (.ok (update branch .upToDate none), w)
      else
        match w.checkout.remotes.lookup remote with
        | none => (.error (failed "find remote"), w)
        | some url => w.publish remote url branch force commit

end Workspace

namespace Repository

/-- The name that a clone gives to where it came from. -/
def originName : String := "origin"

/-- Where a clone of a repository stands: on the branch of the repository, or on one that is at the
same commit. -/
def cloneHead (origin : Repository) : Head :=
  match origin.head, origin.headCommit? with
  | _, none => .branch "master"
  | .branch name, some _ => .branch name
  | _, some commit =>
    let same := origin.branches.filter (·.2 = commit)
    match same.find? (·.1 = "master"), same with
    | some _, _ => .branch "master"
    | none, (name, _) :: _ => .branch name
    | none, [] => .detached commit

def clone (origin : Repository) (url : String) : Checkout :=
  let head := origin.cloneHead
  let refs : Refs := origin.branches.map fun b => (.tracking originName b.1, b.2)
  let refs := match head, origin.headCommit? with
    | .branch name, some commit => refs.set (.branch name) commit
    | _, _ => refs
  { Repository.init false with
    head, refs
    remotes := [(originName, url)]
    index := .ofTree origin.headTree
    work := origin.headTree }

end Repository

end VaultSync.Git
