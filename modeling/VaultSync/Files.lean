import VaultSync.Bytes
import VaultSync.Error
import VaultSync.Path
/-!
A file system: plain files and directories at locations, which are lists of names from the root.
Written paths are resolved against it step by step, so that each operation fails as the operating
system would let it fail.
-/

namespace VaultSync

/-- The names from the root down to an entry. -/
abbrev Location := List String

/-- What lies at a location. -/
inductive Node
  | file (content : ByteArray) (mode : Nat)
  | directory
deriving DecidableEq

/-- A file system. Paths that are not absolute start at the working directory. -/
structure Files where
  workDir : Location
  entries : List (Location × Node)
deriving DecidableEq

namespace Files

/-- What lies at a location. The root is always a directory. -/
def lookup (files : Files) (loc : Location) : Option Node :=
  if loc = [] then some .directory else files.entries.lookup loc

/-- Puts a node at a location, in place of what was there. -/
def insert (files : Files) (loc : Location) (node : Node) : Files :=
  { files with entries := files.entries.filter (·.1 ≠ loc) ++ [(loc, node)] }

def removeBelow (files : Files) (loc : Location) : Files :=
  { files with entries := files.entries.filter fun e => !loc.isPrefixOf e.1 }

def erase (files : Files) (loc : Location) : Files :=
  { files with entries := files.entries.filter (·.1 ≠ loc) }

/-- The entries directly below a location, in the order in which they were made. -/
def children (files : Files) (loc : Location) : List (String × Node) :=
  files.entries.filterMap fun e =>
    match e.1.getLast? with
    | some name => if e.1.dropLast = loc then some (name, e.2) else none
    | none => none

/-- The longest name that a directory takes, in bytes. -/
def maxNameBytes : Nat := 255

def maxPathBytes : Nat := 4095

def checkName (name : String) : Except FileError Unit :=
  if maxNameBytes < name.utf8ByteSize then .error .nameTooLong else .ok ()

def enter (files : Files) (loc : Location) : Except FileError Unit :=
  match files.lookup loc with
  | some .directory => .ok ()
  | some (.file ..) => .error .notDirectory
  | none => .error .notFound

/-- Walks parts of a path from a location. Every location on the way is a directory; the last one may
be absent. -/
def walk (files : Files) (loc : Location) : List String → Except FileError Location
  | [] => .ok loc
  | part :: rest => do
    files.enter loc
    if part = "" ∨ part = "." then files.walk loc rest
    else if part = ".." then files.walk loc.dropLast rest
    else
      checkName part
      files.walk (loc ++ [part]) rest

def start (files : Files) (path : String) : Location :=
  if Path.isAbsolute path then [] else files.workDir

/-- The location that a path names, whether or not something lies there. -/
def resolve (files : Files) (path : String) : Except FileError Location :=
  if path.toList.contains '\x00' then .error .nulInName
  else if path.isEmpty then .error .notFound
  else if maxPathBytes < path.utf8ByteSize then .error .nameTooLong
  else files.walk (files.start path) (Text.splitOnChar '/' path)

def stat (files : Files) (path : String) : Except FileError Node := do
  let loc ← files.resolve path
  match files.lookup loc with
  | some node => .ok node
  | none => .error .notFound

def isFile (files : Files) (path : String) : Bool :=
  match files.stat path with
  | .ok (.file ..) => true
  | _ => false

def isDirectory (files : Files) (path : String) : Bool :=
  match files.stat path with
  | .ok .directory => true
  | _ => false

def has (files : Files) (path : String) : Bool :=
  (files.stat path).isOk

def read (files : Files) (path : String) : Except FileError ByteArray := do
  match ← files.stat path with
  | .file content _ => .ok content
  | .directory => .error .isDirectory

def defaultMode : Nat := 0o644

/-- Writes a plain file. A file that exists keeps its mode. -/
def write (files : Files) (path : String) (content : ByteArray) : Except FileError Files := do
  let loc ← files.resolve path
  match files.lookup loc with
  | some .directory => .error .isDirectory
  | some (.file _ mode) => .ok (files.insert loc (.file content mode))
  | none =>
    if path.toList.getLast? = some '/' then .error .isDirectory
    else .ok (files.insert loc (.file content defaultMode))

/-- Puts a new plain file at a path, in place of a plain file that was there. -/
def replace (files : Files) (path : String) (content : ByteArray) (mode : Nat) :
    Except FileError Files := do
  let loc ← files.resolve path
  match files.lookup loc with
  | some .directory => .error .isDirectory
  | _ => .ok (files.insert loc (.file content mode))

def setMode (files : Files) (path : String) (mode : Nat) : Except FileError Files := do
  let loc ← files.resolve path
  match files.lookup loc with
  | some .directory => .ok files
  | some (.file content _) => .ok (files.insert loc (.file content mode))
  | none => .error .notFound

/-- Makes the directories along parts of a path, as far as they are missing. Those made before a fault
stay. -/
def makeAlong (files : Files) (loc : Location) : List String → Except FileError Unit × Files
  | [] => (.ok (), files)
  | part :: rest =>
    if part = "" ∨ part = "." then files.makeAlong loc rest
    else if part = ".." then files.makeAlong loc.dropLast rest
    else
      match files.lookup (loc ++ [part]) with
      | some .directory => files.makeAlong (loc ++ [part]) rest
      | some (.file ..) => (.error (if rest.all (· = "") then .exists else .notDirectory), files)
      | none =>
        match checkName part with
        | .error e => (.error e, files)
        | .ok () => (files.insert (loc ++ [part]) .directory).makeAlong (loc ++ [part]) rest

/-- Makes a directory and all that lead to it. -/
def createDirAll (files : Files) (path : String) : Except FileError Unit × Files :=
  if path.toList.contains '\x00' then (.error .nulInName, files)
  else if maxPathBytes < path.utf8ByteSize then (.error .nameTooLong, files)
  else files.makeAlong (files.start path) (Text.splitOnChar '/' path)

def createParents (files : Files) (path : String) : Except FileError Unit × Files :=
  match Path.parent? path with
  | some parent => files.createDirAll parent
  | none => (.ok (), files)

def removeFile (files : Files) (path : String) : Except FileError Files := do
  let loc ← files.resolve path
  match files.lookup loc with
  | some .directory => .error .isDirectory
  | some (.file ..) => .ok (files.erase loc)
  | none => .error .notFound

def removeDirAll (files : Files) (path : String) : Except FileError Files := do
  let loc ← files.resolve path
  match files.lookup loc with
  | some .directory => .ok (files.removeBelow loc)
  | some (.file ..) => .error .notDirectory
  | none => .error .notFound

/-- The order of locations by the bytes of their written form. -/
def below (files : Files) (loc : Location) : List (Location × Node) :=
  (files.entries.filter fun e => loc.isPrefixOf e.1 && e.1 ≠ loc).map fun e =>
    (e.1.drop loc.length, e.2)

end Files

end VaultSync
