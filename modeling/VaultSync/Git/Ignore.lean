import VaultSync.Git.Repository
/-!
Which files a repository leaves alone. Rules stand in files named `.gitignore`, each for the directory
that it lies in; of the rules that match a path the one that is nearest and stands last decides.
-/

namespace VaultSync.Git.Ignore

/-- A piece of a pattern. -/
inductive Piece
  | literal (c : Char)
  /-- Any character but a slash. -/
  | one
  /-- Any run of characters without a slash. -/
  | run
  /-- Any number of directories, each with its slash. -/
  | directories
  /-- Anything. -/
  | rest
  | oneOf (negated : Bool) (ranges : List (Char × Char))
deriving DecidableEq, Repr

/-- Reads what a bracket holds, up to the bracket that closes it. -/
def readRanges : List Char → List (Char × Char) → Bool → Option (List (Char × Char) × List Char)
  | [], _, _ => none
  | ']' :: more, ranges, false => some (ranges, more)
  | '\\' :: c :: more, ranges, _ => readRanges more (ranges ++ [(c, c)]) false
  | c :: '-' :: ']' :: more, ranges, _ => some (ranges ++ [(c, c), ('-', '-')], more)
  | c :: '-' :: d :: more, ranges, _ => readRanges more (ranges ++ [(c, d)]) false
  | c :: more, ranges, _ => readRanges more (ranges ++ [(c, c)]) false

/-- Reads a pattern. `fresh` says that a directory name starts here. -/
def readPieces (fuel : Nat) (fresh : Bool) (pattern : List Char) : List Piece :=
  match fuel with
  | 0 => []
  | fuel + 1 =>
    match pattern with
    | [] => []
    | '*' :: '*' :: '/' :: more =>
      if fresh then .directories :: readPieces fuel true more
      else .run :: .literal '/' :: readPieces fuel true more
    | ['*', '*'] => if fresh then [.rest] else [.run]
    | '*' :: more => .run :: readPieces fuel false more
    | '?' :: more => .one :: readPieces fuel false more
    | '\\' :: c :: more => .literal c :: readPieces fuel false more
    | '[' :: more =>
      let negated := more.head? = some '!' || more.head? = some '^'
      match readRanges (if negated then more.tail else more) [] true with
      | some (ranges, more) => .oneOf negated ranges :: readPieces fuel false more
      | none => .literal '[' :: readPieces fuel false more
    | c :: more => .literal c :: readPieces fuel (c = '/') more

/-- The ends of a text that a run without slashes can lead to. -/
def endsOfRun : List Char → List (List Char)
  | [] => [[]]
  | c :: more => (c :: more) :: if c = '/' then [] else endsOfRun more

/-- The ends of a text after any number of directories. -/
def endsOfDirectories (text : List Char) : List (List Char) :=
  text :: go text
where
  go : List Char → List (List Char)
    | [] => []
    | c :: more => if c = '/' then more :: go more else go more

def fits : List Piece → List Char → Bool
  | [], text => text.isEmpty
  | .literal c :: pieces, d :: text => c = d && fits pieces text
  | .one :: pieces, d :: text => d ≠ '/' && fits pieces text
  | .oneOf negated ranges :: pieces, d :: text =>
    d ≠ '/' && (ranges.any fun r => r.1 ≤ d && d ≤ r.2) ≠ negated && fits pieces text
  | .run :: pieces, text => (endsOfRun text).any (fits pieces ·)
  | .directories :: pieces, text => (endsOfDirectories text).any (fits pieces ·)
  | .rest :: _, _ => true
  | _ :: _, [] => false

/-- A rule. -/
structure Rule where
  /-- The directory that the rule is for. -/
  base : TreePath
  negated : Bool
  directoriesOnly : Bool
  /-- Whether the whole path below the directory has to fit, and not only the name. -/
  whole : Bool
  pieces : List Piece

/-- Drops the blanks at the end of a line, except one behind a backslash. -/
def trimEnd (line : List Char) : List Char :=
  let backwards := line.reverse
  let kept := backwards.dropWhile fun c => c = ' ' || c = '\t' || c = '\r'
  match kept, backwards.length - kept.length with
  | '\\' :: _, n + 1 => (backwards.drop n).reverse
  | _, _ => kept.reverse

def readRule? (base : TreePath) (line : List Char) : Option Rule :=
  let line := trimEnd line
  if line.isEmpty || line.head? = some '#' then none
  else
    let negated := line.head? = some '!'
    let pattern := if negated then line.tail else line
    let directoriesOnly := pattern.getLast? = some '/'
    let pattern := if directoriesOnly then pattern.dropLast else pattern
    let whole := pattern.contains '/'
    let pattern := if pattern.head? = some '/' then pattern.tail else pattern
    if pattern.isEmpty then none
    else some ⟨base, negated, directoriesOnly, whole, readPieces (pattern.length + 1) true pattern⟩

/-- The rules of a file, the last one first. -/
def readRules (base : TreePath) (content : ByteArray) : List Rule :=
  match String.fromUTF8? content with
  | some text => ((Text.splitChars '\n' text.toList).filterMap (readRule? base)).reverse
  | none => []

def Rule.matches (rule : Rule) (path : TreePath) (isDirectory : Bool) : Bool :=
  path.isBelow rule.base && (isDirectory || !rule.directoriesOnly) &&
    fits rule.pieces
      (if rule.whole then TreePath.text (path.drop rule.base.length) else path.getLastD "").toList

/-- The rules for a path: those of the directories that lead to it, the nearest first, and those that
the repository has for itself. -/
def rulesFor (c : Checkout) (path : TreePath) : List Rule :=
  let bases := (List.range path.length).reverse.map fun n => path.take n
  (bases.flatMap fun base =>
    ((c.work.get? (base ++ [".gitignore"])).map (readRules base)).getD []) ++
    ((c.strays.get? ["info", "exclude"]).map (readRules [])).getD []

/-- Whether the rules leave out a path on its own account. -/
def leavesOut (c : Checkout) (path : TreePath) (isDirectory : Bool) : Bool :=
  match (rulesFor c path).find? (·.matches path isDirectory) with
  | some rule => !rule.negated
  | none => false

/-- Whether a file is ignored: it is left out itself, or a directory on the way to it is. -/
def isIgnored (c : Checkout) (path : TreePath) : Bool :=
  ((List.range path.length).any fun n => n ≠ 0 && leavesOut c (path.take n) true) ||
    leavesOut c path false

end VaultSync.Git.Ignore
