import VaultSync.Git.Status
/-!
Bringing the work tree to another tree. A careful switch from one tree to another refuses as a whole
when a file that is not committed would be lost, or while paths are in conflict; a forced one makes the
tracked files those of the target whatever they were.
-/

namespace VaultSync.Git.Checkout

/-- Whether a file that is in the way of a path keeps a careful switch from happening. -/
def isInWay (c : Checkout) (source target : Tree) (path : TreePath) : Bool :=
  match source.get? path, target.get? path, c.work.get? path with
  | some old, some new, some content => old ≠ new && content ≠ old && content ≠ new
  | some old, some new, none => old ≠ new
  | none, some _, some _ => !Ignore.isIgnored c path
  | none, some _, none =>
    (c.work.paths.any fun q => path.isBelow q && (source.get? q).isNone) ||
      (c.work.hasBelow path && !source.hasBelow path)
  | some old, none, some content => content ≠ old
  | _, none, _ => false

/-- The content of a path after the files that the target no longer has were removed. -/
def afterRemoval (c : Checkout) (source target : Tree) (path : TreePath) : Option ByteArray :=
  if (source.get? path).isSome && (target.get? path).isNone then none else c.work.get? path

/-- The content of a path after a careful switch: that of the target where the trees differ. -/
def afterSwitch (c : Checkout) (source target : Tree) (path : TreePath) : Option ByteArray :=
  if source.get? path = target.get? path then c.work.get? path else target.get? path

/-- How a careful switch ends. -/
inductive Switched
  | done (c : Checkout)
  /-- Nothing was touched, because a file would be lost or paths are in conflict. -/
  | inWay
  /-- Files were written, but not all that had to be. -/
  | broken (c : Checkout)

/-- A path that cannot be written because a directory with files stays in its place. -/
def obstacle? (c : Checkout) (source target : Tree) (paths : List TreePath) : Option TreePath :=
  let left := Tree.tabulate paths (c.afterRemoval source target)
  paths.find? fun path =>
    source.get? path ≠ target.get? path && (target.get? path).isSome && left.hasBelow path

def switch (c : Checkout) (source target : Tree) : Switched :=
  let paths := Tree.unionPaths [source, target, c.work, c.index.staged]
  if !c.index.conflicts.isEmpty || paths.any (c.isInWay source target) then .inWay
  else
    match c.obstacle? source target paths with
    | some path =>
      .broken { c with work := Tree.tabulate paths fun p =>
        if p < path then c.afterSwitch source target p else c.afterRemoval source target p }
    | none =>
      let c := { c with work := Tree.tabulate paths (c.afterSwitch source target) }
      let staged := Tree.tabulate paths fun p =>
        if source.get? p = target.get? p then c.index.staged.get? p else target.get? p
      match c.within (·.writeIndex (.ofTree staged)) with
      | some c => .done c
      | none => .broken c

/-- The directories on the way to a path, the outermost first. -/
def directoriesTo (path : TreePath) : List TreePath :=
  ((List.range path.length).filter (· ≠ 0)).map path.take

/-- Whether a forced switch takes away a file that neither tree has: it does if the index knows the
file, or any file of the outermost directory that the trees do not have. -/
def isTakenAlong (c : Checkout) (source target : Tree) (path : TreePath) : Bool :=
  match (directoriesTo path).find? fun dir => !source.hasBelow dir && !target.hasBelow dir with
  | some dir => c.index.staged.hasBelow dir || c.index.conflicts.any (·.isBelow dir)
  | none => c.isTracked path

/-- The content of a path after a forced switch. -/
def afterForce (c : Checkout) (source target : Tree) (path : TreePath) : Option ByteArray :=
  match target.get? path with
  | some content => some content
  | none =>
    if (source.get? path).isSome then none
    else if target.hasBelow path || target.blocks path then none
    else if c.isTakenAlong source target path then none
    else c.work.get? path

/-- The work tree after a forced switch. -/
def forced (c : Checkout) (source target : Tree) : Tree :=
  Tree.tabulate (Tree.unionPaths [source, target, c.work]) (c.afterForce source target)

/-- Makes the files and the index those of a commit, and then moves to it. What was in progress is
forgotten. The step is what a failure is reported under. -/
def resetTo (step : String) (c : Checkout) (commit : Commit) :
    Except TransportError Unit × Checkout :=
  let c := { c with work := c.forced c.headTree commit.tree }
  match c.within (·.writeIndex (.ofTree commit.tree)) with
  | none => (.error (failed step), c)
  | some c =>
    match c.within (·.advance commit) with
    | none => (.error (failed step), c)
    | some c => (.ok (), { c with toRepository := c.clearProgress })

end VaultSync.Git.Checkout
