import VaultSync.Cli.Run
/-!
Between a disk and the files of a machine. Directories of the disk are not listed: a run sees the files
that it names and those that earlier runs wrote, which a catalogue in the data directory names.
-/

namespace VaultSync.Cli

def cataloguePath (dataDir : String) : String :=
  Path.join dataDir ".catalogue"

/-- The paths in the text of a catalogue, one on a line. -/
def cataloguePaths (text : String) : List String :=
  (Text.lines text).filter (· ≠ "")

def catalogueText (paths : List String) : String :=
  String.join (paths.map (· ++ "\n"))

def Task.readsInput : Task → Bool
  | setUp .. | keys _ | reveal _ => false
  | insert _ | clone _ | store _ => true

/-- The files that a task names, besides those of the data directory. A typed line may name one. -/
def Task.namedFiles (input : List UInt8) : Task → List String
  | keys (.importFile file) => [file]
  | clone _ | store _ =>
    ((String.fromUTF8? input.toByteArray).map fun text => (Text.lines text).map Text.trim).getD []
  | setUp .. | keys _ | insert _ | reveal _ => []

def pathOf (loc : Location) : String :=
  "/" ++ String.intercalate "/" loc

def locationOf (path : String) : Location :=
  (Text.splitOnChar '/' path).filter (· ≠ "")

/-- The files found on a disk, with the directories that lead to them. Modes are not looked at: every
file counts as its owner's alone. -/
def loadedFiles (workDir : String) (found : List (String × ByteArray)) : Files :=
  let start : Files := ⟨locationOf workDir, []⟩
  found.foldl (fun files (path, content) =>
    let files := (files.createParents path).2
    (files.replace path content Ssh.Keygen.privateMode).toOption.getD files)
    (start.createDirAll workDir).2

/-- What became of a file. -/
inductive Change
  | written (path : String) (content : ByteArray) (mode : Nat)
  | removed (path : String)

/-- The changes that lead from files to other ones. -/
def changes (old new : Files) : List Change :=
  let gone := old.entries.filterMap fun e =>
    match e.2, new.lookup e.1 with
    | .file .., none => some (.removed (pathOf e.1))
    | _, _ => none
  gone ++ new.entries.filterMap fun e =>
    match e.2 with
    | .file content mode =>
      if old.lookup e.1 = some e.2 then none else some (.written (pathOf e.1) content mode)
    | .directory => none

def filePaths (files : Files) : List String :=
  files.entries.filterMap fun e =>
    match e.2 with
    | .file .. => some (pathOf e.1)
    | .directory => none

end VaultSync.Cli
