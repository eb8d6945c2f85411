import VaultSync.Text.Blank
/-!
Paths as they are written: names between slashes. Joining and taking apart never look at what lies on
a disk.
-/

namespace VaultSync.Path

/-- One step of a written path. -/
inductive Component
  | root
  | current
  | parent
  | name (text : String)
deriving DecidableEq, Repr

/-- The steps of a path. Empty parts say nothing, and a single dot only counts at the front. -/
def components (path : String) : List Component :=
  let parts := Text.splitOnChar '/' path
  let start : List Component :=
    if path.toList.head? = some '/' then [.root]
    else if parts.head? = some "." then [.current]
    else []
  start ++ (parts.filter fun part => part ≠ "" ∧ part ≠ ".").map fun part =>
    if part = ".." then .parent else .name part

def isAbsolute (path : String) : Bool :=
  path.toList.head? = some '/'

/-- A path below another one. An absolute path stands for itself. -/
def join (base path : String) : String :=
  if isAbsolute path || base.isEmpty then path
  else if base.toList.getLast? = some '/' then base ++ path
  else base ++ "/" ++ path

/-- The last step of a path, if it is a name. -/
def fileName? (path : String) : Option String :=
  match (components path).getLast? with
  | some (.name text) => some text
  | _ => none

/-- What follows the last dot of a file name. A name whose only dot stands at its front has no
extension. -/
def extension? (path : String) : Option String := do
  let name ← fileName? path
  let backwards := name.toList.reverse
  let ext := backwards.takeWhile (· ≠ '.')
  let stem := (backwards.dropWhile (· ≠ '.')).drop 1
  if stem.isEmpty then none else some (String.ofList ext.reverse)

def ofComponents : List Component → String
  | [] => ""
  | [.root] => "/"
  | .root :: rest => "/" ++ String.intercalate "/" (rest.map step)
  | steps => String.intercalate "/" (steps.map step)
where
  step : Component → String
    | .root => ""
    | .current => "."
    | .parent => ".."
    | .name text => text

/-- The path without its last step; the root and the empty path have none to drop. -/
def parent? (path : String) : Option String :=
  let steps := components path
  match steps.getLast? with
  | none | some .root => none
  | some _ => some (ofComponents steps.dropLast)

end VaultSync.Path
