import VaultSync.Git.Directory
import VaultSync.Git.Workspace
/-!
Repositories on a file system. A work tree is read from the files below its location, and what a command
changed is written back there.
-/

namespace VaultSync.Git

/-- A file system with the repositories on it. What a repository keeps in files of its own is held
apart; its directory has the files that can be read, and those of others. -/
structure Host where
  files : Files
  repositories : List (Location × Repository)

/-- The directory of a repository whose work tree, if it has one, is at a location. -/
def Repository.directory (repo : Repository) (loc : Location) : Location :=
  if repo.bare then loc else loc ++ [".git"]

namespace Host

/-- Changes files. A repository whose directory is gone is gone. -/
def withFiles (change : Files → Files) (host : Host) : Host :=
  let files := change host.files
  ⟨files, host.repositories.filter fun r => files.lookup (r.2.directory r.1) = some .directory⟩

/-! ### Reading -/

/-- The plain files below a location whose path passes a test. -/
def filesBelow (files : Files) (loc : Location) (wanted : TreePath → Bool) : Tree :=
  let found := (files.below loc).filterMap fun e =>
    match e.2 with
    | .file content _ => if wanted e.1 then some (e.1, content) else none
    | .directory => none
  Tree.tabulate (found.map (·.1)) fun p => found.lookup p

/-- The text of a file in the directory of a repository. -/
def ownText (files : Files) (directory : Location) (name : String) : Option String :=
  match files.lookup (directory ++ [name]) with
  | some (.file content _) => String.fromUTF8? content
  | _ => none

/-- Completes what is known of a repository by what its directory says. It cannot be opened without the
file that says where it stands, nor with a configuration that makes no sense. -/
def complete (files : Files) (loc : Location) (repo : Repository) : Option Repository := do
  let directory := repo.directory loc
  let headText ← ownText files directory "HEAD"
  let head := if headText = repo.head.fileText then repo.head else .ofFileText repo.refs headText
  let remotes ← match ownText files directory "config" with
    | none => some []
    | some text =>
      if text = Settings.text repo.bare repo.remotes then some repo.remotes
      else (Settings.read? text).map Settings.remotes
  let strays := filesBelow files directory fun path => path ≠ ["HEAD"] && path ≠ ["config"]
  pure { repo with head, remotes, strays }

/-- The repository at a location, or the one that the location is the directory of. -/
def repositoryAt (host : Host) (loc : Location) : Option (Location × Repository) :=
  let found := fun loc => do
    let repo ← host.repositories.lookup loc
    let repo ← complete host.files loc repo
    pure (loc, repo)
  match found loc with
  | some r => some r
  | none => if loc.getLast? = some ".git" then found loc.dropLast else none

def repositoryOf (host : Host) (path : String) : Option (Location × Repository) := do
  let loc ← (host.files.resolve path).toOption
  host.repositoryAt loc

/-- A name that a work tree keeps for the directory of a repository, in any letter case. What goes by it, or
lies below, is no file of the work tree. -/
def isOwnName (name : String) : Bool :=
  Text.eqIgnoreAsciiCase name ".git"

/-- The checkout at a path. What lies below the location is its work tree, but for what goes by the own name of
a repository. The files of a directory that holds a repository of its own count like any others. -/
def open? (host : Host) (path : String) : Option (Location × Checkout) := do
  let (loc, repo) ← host.repositoryOf path
  let work := if repo.bare then .empty else filesBelow host.files loc (!·.any isOwnName)
  pure (loc, { repo with work })

/-! ### Addresses -/

def fileScheme : String := "file://"

/-- A text in which numbers of characters stand behind percent signs, in full. -/
def decodePercent : List Char → List Char
  | '%' :: a :: b :: rest =>
    match Text.bytesOfHex? (String.ofList [a.toLower, b.toLower]) with
    | some bytes => Bytes.toChars bytes ++ decodePercent rest
    | none => '%' :: decodePercent (a :: b :: rest)
  | c :: rest => c :: decodePercent rest
  | [] => []
termination_by cs => cs.length

def locate (host : Host) (url : String) : Except Unreachable (Location × Repository) :=
  let cs := url.toList
  if cs.isEmpty then .error .notRepository
  else if fileScheme.toList.isPrefixOf cs then
    let path := String.ofList (decodePercent (cs.drop fileScheme.length))
    match host.repositoryOf path with
    | some r => .ok r
    | none => .error .notRepository
  else if cs.contains ':' || !host.files.isDirectory url then .error .network
  else
    match host.repositoryOf url with
    | some r => .ok r
    | none => .error .notRepository

def reach (host : Host) : Reach :=
  fun url => (host.locate url).map (·.2)

/-! ### Writing -/

/-- Takes away directories without entries, from a location up to another one that stays. -/
def prune (root : Location) (files : Files) (loc : Location) : Files :=
  (List.range (loc.length - root.length)).foldl (fun files i =>
    let dir := loc.take (loc.length - i)
    if (files.children dir).isEmpty then files.erase dir else files) files

/-- Takes away a file and the directories that it leaves empty. -/
def eraseBelow (root : Location) (files : Files) (path : TreePath) : Files :=
  prune root (files.erase (root ++ path)) (root ++ path.dropLast)

/-- Writes a file, whatever lay at its path or stood in the way. -/
def writeBelow (root : Location) (files : Files) (path : TreePath) (content : ByteArray) : Files :=
  let files := (List.range path.length).foldl (fun files i =>
    let dir := root ++ path.take i
    if files.lookup dir = some .directory then files else files.insert dir .directory) files
  (files.removeBelow (root ++ path)).insert (root ++ path) (.file content Files.defaultMode)

/-- Brings files below a location from one tree to another. Files that stay as they are are not
written. -/
def writeTree (root : Location) (old new : Tree) (files : Files) : Files :=
  let files := (old.paths.filter fun p => (new.get? p).isNone).foldl (eraseBelow root) files
  new.entries.foldl (fun files e =>
    if old.get? e.1 = some e.2 then files else writeBelow root files e.1 e.2) files

def keep (host : Host) (loc : Location) (repo : Repository) : Host :=
  { host with repositories :=
      host.repositories.filter (·.1 ≠ loc) ++ [(loc, { repo with strays := .empty })] }

/-- Writes the files that a repository has people read. -/
def writeOwn (loc : Location) (repo : Repository) (files : Files) : Files :=
  let directory := repo.directory loc
  let files := writeBelow directory files ["HEAD"] repo.head.fileText.toUTF8
  writeBelow directory files ["config"] (Settings.text repo.bare repo.remotes).toUTF8

/-- Puts a new repository at a location, with the files of its work tree. -/
def create (host : Host) (loc : Location) (c : Checkout) : Host :=
  let files := writeOwn loc c.toRepository host.files
  { host with files := writeTree loc .empty c.work files }.keep loc c.toRepository

def save (host : Host) (loc : Location) (old new : Checkout) : Host :=
  let directory := new.directory loc
  let files := writeTree loc old.work new.work host.files
  let files := (old.strays.paths.filter fun p => (new.strays.get? p).isNone).foldl
    (eraseBelow directory) files
  let files :=
    if old.head = new.head ∧ old.remotes = new.remotes then files
    else writeOwn loc new.toRepository files
  { host with files }.keep loc new.toRepository

/-! ### Commands -/

/-- Whether a clone may be put at a path: nothing lies there, or a directory without entries. -/
def isVacant (host : Host) (path : String) : Bool :=
  match host.files.resolve path with
  | .error _ => !host.files.has path
  | .ok loc =>
    match host.files.lookup loc with
    | none => true
    | some (.file ..) => false
    | some .directory => (host.files.children loc).isEmpty

/-- Clones a repository. When that fails the directory for it is taken away again, but not those that
lead to it. -/
def clone (host : Host) (url path : String) : Except TransportError Unit × Host :=
  if !host.isVacant path then (.error (failed "clone"), host)
  else
    match host.files.createDirAll path, host.files.has path with
    | (.error _, files), _ => (.error (failed "clone"), { host with files })
    | (.ok (), files), existed =>
      match host.locate url, files.resolve path with
      | .ok (_, origin), .ok loc => (.ok (), { host with files }.create loc (origin.clone url))
      | .error u, _ =>
        (.error (u.failure "clone"),
          { host with files := if existed then files else (files.removeDirAll path).toOption.getD files })
      | _, .error _ => (.error (failed "clone"), host)

/-- Performs a command in an open checkout, and writes back what it changed there and in the
repositories that it reached. -/
def performIn (author : Option Person) (command : Command) (loc : Location) (c : Checkout)
    (host : Host) : Except TransportError command.Result × Host :=
  let (result, w) := Workspace.perform author command ⟨c, host.reach⟩
  let host := c.remotes.foldl (fun h r =>
    match host.locate r.2, w.reach r.2 with
    | .ok (at_, _), .ok repo => h.keep at_ repo
    | _, _ => h) host
  (result, host.save loc c w.checkout)

/-- The commands on the repository whose work tree lies at a path. -/
def backend (workTree : String) (author : Option Person) : Backend Host where
  perform command _ host :=
    match command with
    | .plain (.clone url path) => let (r, host) := host.clone url path; (.ofExcept r, host)
    | command =>
      match host.open? workTree with
      | none => (.error (failed "open repository"), host)
      | some (loc, c) => let (r, host) := host.performIn author command loc c; (.ofExcept r, host)

end Host

end VaultSync.Git
