import VaultSync.Git.Pull
import VaultSync.Git.Record
import VaultSync.Sync.Executor
/-!
The commands of an operation, performed on a checkout and the repositories that it can reach.
-/

namespace VaultSync.Git

namespace Checkout

/-- The full names that a short name may stand for, in the order in which they are tried. -/
def fullNames (short : String) : List String :=
  [short, "refs/" ++ short, "refs/tags/" ++ short, "refs/heads/" ++ short, "refs/remotes/" ++ short,
    "refs/remotes/" ++ short ++ "/HEAD"]

/-- The commit that a short name stands for: that of the first full name that there is. -/
def named? (c : Checkout) (name : String) : Option Commit :=
  if name = "HEAD" ∨ name = "@" then c.headCommit?
  else (fullNames name).findSome? c.refs.pointedAt?

/-- The commit that some steps back along the branch lead to. -/
def stepsBefore (commit : Commit) : Nat → Option Commit
  | 0 => some commit
  | n + 1 => commit.parent?.bind (stepsBefore · n)

/-- The parent of a number, counted from one; the commit itself is number zero. -/
def numberedParent? (commit : Commit) : Nat → Option Commit
  | 0 => some commit
  | n + 1 => commit.parents[n]?

/-- Follows the marks behind a name: a tilde leads back by some commits, a caret to one of the parents. -/
def follow (fuel : Nat) (commit : Commit) (marks : List Char) : Option Commit :=
  match fuel, marks with
  | _, [] => some commit
  | 0, _ => none
  | fuel + 1, mark :: rest =>
    let digits := rest.takeWhile Char.isDigit
    let count := if digits.isEmpty then 1 else (String.ofList digits).toNat?.getD 0
    let next := if mark = '~' then stepsBefore commit count else
      if mark = '^' then numberedParent? commit count else none
    next.bind (follow fuel · (rest.drop digits.length))

def resolve? (c : Checkout) (target : String) : Option Commit :=
  let isMark := fun ch => ch = '~' || ch = '^'
  let name := target.toList.takeWhile (!isMark ·)
  let marks := target.toList.drop name.length
  (c.named? (String.ofList name)).bind (follow (marks.length + 1) · marks)

/-- Throws away what differs from a commit, and moves to it. -/
def resetHard (target : String) (c : Checkout) : Except TransportError Unit × Checkout :=
  match c.resolve? target with
  | none => (.error (failed "resolve reset target"), c)
  | some commit => c.resetTo "reset" commit

/-- Makes a branch at the current commit without going to it. -/
def createBranch (name : String) (c : Checkout) : Except TransportError Unit × Checkout :=
  match c.headCommit? with
  | none => (.error (failed "resolve HEAD"), c)
  | some commit =>
    if !RefName.isBranchName name || (c.refs.get? (.branch name)).isSome then
      (.error (failed "create branch"), c)
    else
      match c.within (·.point (.branch name) commit) with
      | none => (.error (failed "create branch"), c)
      | some c => (.ok (), c)

end Checkout

namespace Workspace

/-- Changes the checkout alone. -/
def locally {α : Type} (w : Workspace) (step : Checkout → α × Checkout) : α × Workspace :=
  let (a, c) := step w.checkout
  (a, { w with checkout := c })

/-- Performs a command without a result. A clone is refused, since there is a checkout already. -/
def performPlain (command : PlainCommand) (w : Workspace) : Except TransportError Unit × Workspace :=
  match command with
  | .addAll => w.locally Checkout.addAll
  | .fetch remote => w.locally (Checkout.fetch w.reach remote)
  | .resetHard target => w.locally (Checkout.resetHard target)
  | .createBranch name => w.locally (Checkout.createBranch name)
  | .rebaseAbort => w.locally Checkout.abortRebase
  | .clone .. => (.error (failed "clone"), w)

/-- Performs a command. The author is the one who records. -/
def perform (author : Option Person) (command : Command) (w : Workspace) :
    Except TransportError command.Result × Workspace :=
  match command with
  | .status => w.locally fun c => (c.status, c)
  | .commit message => w.locally (Checkout.commit author message)
  | .pull remote => w.locally (Checkout.pull author w.reach remote)
  | .push remote branch force => w.push remote branch force
  | .plain command => w.performPlain command

/-- The commands as a backend. No remote here asks for a credential. -/
def backend (author : Option Person) : Backend Workspace where
  perform command _ w :=
    let (result, w) := w.perform author command
    (.ofExcept result, w)

end Workspace

end VaultSync.Git
