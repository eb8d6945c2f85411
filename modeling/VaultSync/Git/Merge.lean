import VaultSync.Git.History
import VaultSync.Git.LineMerge
/-!
Merging two changes of one tree, path by path: where only one side changed the base its change is
taken, and where both did their contents are merged. A file that one side only moved is followed: the
other side's change of it is made at its new place.
-/

namespace VaultSync.Git

/-- What a merge makes of one path. -/
inductive PathMerge
  | settled (content : Option ByteArray)
  /-- The sides disagree; the content is what a user gets to see. -/
  | conflict (shown : ByteArray)
deriving DecidableEq

def mergePath (ourLabel theirLabel : String) (base ours theirs : Option ByteArray) : PathMerge :=
  if ours = theirs then .settled ours
  else if ours = base then .settled theirs
  else if theirs = base then .settled ours
  else
    match ours, theirs with
    | some x, some y =>
      let merged := LineMerge.merge ourLabel theirLabel (base.getD ByteArray.empty) x y
      if merged.clean then .settled (some merged.content) else .conflict merged.content
    | some x, none | none, some x => .conflict x
    | none, none => .settled none

/-- A path on which a merge did not settle. -/
structure Conflict where
  path : TreePath
  /-- Where the content is put for the user. -/
  shownAt : TreePath
  /-- The content, unless there is none to be shown. -/
  shown : Option ByteArray
deriving DecidableEq

/-- A merged tree. -/
structure TreeMerge where
  settled : Tree
  conflicts : List Conflict
deriving DecidableEq

/-- The names of the sides of a merge. -/
structure MergeLabels where
  ours : String
  theirs : String

/-- Where a file is put whose path is needed for a directory. -/
def besides (path : TreePath) (label : String) : TreePath :=
  path.dropLast ++ Text.splitOnChar '/' (path.getLastD "" ++ "~" ++ label)

/-! ### Files that were moved -/

/-- A file that one side has, unchanged, at another path. -/
structure Move where
  source : TreePath
  target : TreePath
deriving DecidableEq

/-- Finds for each new path a file that is gone and had the same content. Every file is found once. -/
def matchMoves (base side : Tree) : List TreePath → List TreePath → List Move
  | _, [] => []
  | gone, target :: new =>
    match gone.find? fun source => base.get? source = side.get? target with
    | some source => ⟨source, target⟩ :: matchMoves base side (gone.erase source) new
    | none => matchMoves base side gone new

/-- The files that a side moved. -/
def moves (base side : Tree) : List Move :=
  matchMoves base side (base.paths.filter fun p => (side.get? p).isNone)
    (side.paths.filter fun p => (base.get? p).isNone)

/-- Whether it matters to the other side that a file was moved: it changed the file itself, and has
nothing at the new path. -/
def Move.matters (base other : Tree) (move : Move) : Bool :=
  other.get? move.source ≠ base.get? move.source && (other.get? move.target).isNone

/-- A tree with files at the paths that they were moved to. -/
def Tree.follow (tree : Tree) (moved : List Move) : Tree :=
  .tabulate (tree.paths ++ moved.map (·.target)) fun p =>
    match moved.find? (·.target = p) with
    | some move => (tree.get? move.source).or (tree.get? p)
    | none => if moved.any (·.source = p) then none else tree.get? p

/-! ### Trees -/

/-- Merges trees that agree on where each file lies, but for the given moves of files that the other
side removed or moved elsewhere, which are conflicts. So is a file that stands where another path needs
a directory. -/
def mergePaths (labels : MergeLabels) (torn : List Move) (base ours theirs : Tree) : TreeMerge :=
  let paths := Tree.unionPaths [base, ours, theirs]
  let merged := fun p => mergePath labels.ours labels.theirs (base.get? p) (ours.get? p) (theirs.get? p)
  let isTorn := fun p => torn.any fun move => move.source = p || move.target = p
  let present := paths.filter fun p => merged p ≠ .settled none || isTorn p
  let isDirectory := fun (p : TreePath) => present.any (·.isBelow p)
  let label := fun p => if (ours.get? p).isSome then labels.ours else labels.theirs
  { settled := Tree.tabulate paths fun p =>
      match merged p with
      | .settled content => if isDirectory p || isTorn p then none else content
      | .conflict _ => none
    conflicts := present.filterMap fun p =>
      let place := if isDirectory p then besides p (label p) else p
      match merged p with
      | .settled content =>
        if isTorn p || (isDirectory p && content.isSome) then some ⟨p, place, content⟩ else none
      | .conflict shown => some ⟨p, place, some shown⟩ }

def mergeTrees (labels : MergeLabels) (base ours theirs : Tree) : TreeMerge :=
  let ourMoves := (moves base ours).filter (·.matters base theirs)
  let theirMoves := (moves base theirs).filter (·.matters base ours)
  let isLeft := fun (other : Tree) (move : Move) => (other.get? move.source).isSome
  let followed := ourMoves.filter (isLeft theirs) ++ theirMoves.filter (isLeft ours)
  let torn := ourMoves.filter (!isLeft theirs ·) ++ theirMoves.filter (!isLeft ours ·)
  mergePaths labels torn (base.follow followed) (ours.follow followed) (theirs.follow followed)

end VaultSync.Git
