import VaultSync.Git.Ignore
import VaultSync.Sync.Report
/-!
The state of a work tree: each path compared between the last commit, the index and the files.
-/

namespace VaultSync.Git

/-- How a path stands between the last commit, the index and the work tree. -/
inductive Standing
  | same
  /-- In the index, but gone from the work tree. -/
  | missing
  | changed
  /-- Only in the work tree. -/
  | untracked
  /-- Only in the work tree, where rules leave it out. -/
  | ignored
  | conflicted
deriving DecidableEq, Repr

namespace Checkout

def isTracked (c : Checkout) (path : TreePath) : Bool :=
  (c.index.staged.get? path).isSome || c.index.conflicts.contains path

def standing (c : Checkout) (path : TreePath) : Standing :=
  if c.index.conflicts.contains path then .conflicted
  else
    match c.headTree.get? path, c.index.staged.get? path, c.work.get? path with
    | _, some _, none => .missing
    | committed, some staged, some content =>
      if committed = some staged ∧ staged = content then .same else .changed
    | some _, none, _ => .changed
    | none, none, some _ => if Ignore.isIgnored c path then .ignored else .untracked
    | none, none, none => .same

/-- The paths that the last commit, the index or the work tree has. -/
def paths (c : Checkout) : List TreePath :=
  Tree.unionPaths [c.headTree, c.index.staged, c.work]

def count (c : Checkout) (standing : Standing) : Nat :=
  (c.paths.filter fun path => c.standing path = standing).length

/-- Counts the paths that differ. What is in conflict is not counted. -/
def status (c : Checkout) : Except TransportError StatusReport :=
  if c.head = .unreadable then .error (failed "status")
  else .ok ⟨c.count .changed, c.count .missing, c.count .untracked⟩

end Checkout

end VaultSync.Git
