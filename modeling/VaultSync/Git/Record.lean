import VaultSync.Git.Status
/-!
Staging the work tree and recording what is staged.
-/

namespace VaultSync.Git.Checkout

/-- The content that a path has in the index once everything is staged. Files that the index does not
know are taken in unless rules leave them out. -/
def stagedContent (c : Checkout) (path : TreePath) : Option ByteArray :=
  if c.isTracked path || !Ignore.isIgnored c path then c.work.get? path else none

def stagedAll (c : Checkout) : Index :=
  .ofTree (Tree.tabulate c.work.paths c.stagedContent)

/-- Stages every change, deletions included. A path in conflict cannot be staged without its file. -/
def addAll (c : Checkout) : Except TransportError Unit × Checkout :=
  if c.index.conflicts.any fun path => (c.work.get? path).isNone then
    (.error (failed "stage changes"), c)
  else
    match c.within (·.writeIndex c.stagedAll) with
    | some c => (.ok (), c)
    | none => (.error (failed "stage changes"), c)

def commit (author : Option Person) (message : String) (c : Checkout) :
    Except TransportError Unit × Checkout :=
  match author with
  | none => (.error (failed "build signature"), c)
  | some author =>
    if !c.index.conflicts.isEmpty then (.error (failed "write tree"), c)
    else if c.head = .unreadable then (.error (failed "resolve HEAD"), c)
    else if message.toList.contains '\x00' then (.error (failed "commit"), c)
    else
      let revision := Revision.record c.index.staged author author message
      match c.within (·.advance (.on c.headCommit? revision)) with
      | some c => (.ok (), c)
      | none => (.error (failed "commit"), c)

end VaultSync.Git.Checkout
