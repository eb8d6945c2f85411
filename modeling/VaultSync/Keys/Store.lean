import VaultSync.Files
import VaultSync.Keys.KeyFile
import VaultSync.Keys.KeyId
/-!
The keys of a vault: a directory with one file for each key, named for its id. There is no index. A key
is written and removed by its name, but found by the id that its content gives.
-/

namespace VaultSync

/-- A directory of keys. Nothing is made before the first key is added. -/
structure KeyStore where
  dir : String
deriving DecidableEq, Repr

namespace KeyStore

def dirName : String := "keys"

def fileExtension : String := "key"

/-- The mode of a key file: nobody else reads it. -/
def fileMode : Nat := 0o600

def inData (dataDir : String) : KeyStore :=
  ⟨Path.join dataDir dirName⟩

def pathOf (store : KeyStore) (name : String) : String :=
  Path.join store.dir name

def fileName (id : String) : String :=
  id ++ "." ++ fileExtension

def keyFile (store : KeyStore) (id : String) : Except VaultError String := do
  KeyId.validate id
  pure (store.pathOf (fileName id))

/-- Whether a file name is that of a key file. The case of the extension does not count. -/
def canHandle (name : String) : Bool :=
  match Path.extension? name with
  | some ext => Text.eqIgnoreAsciiCase ext fileExtension
  | none => false

def requireDir (store : KeyStore) (files : Files) : Except VaultError Unit :=
  if files.isDirectory store.dir then .ok () else .error (.keyDirMissing store.dir)

/-- Adds a key, in place of one with the same id. The new file is written beside the old one and then
put in its place, so that no other file is left whatever happens. -/
def add (store : KeyStore) (key : KeyPair) (files : Files) : Except VaultError String × Files :=
  match store.keyFile key.id with
  | .error e => (.error e, files)
  | .ok path =>
    match files.createDirAll store.dir with
    | (.error e, files) => (.error (.keyDirCreate store.dir e), files)
    | (.ok (), files) =>
      match files.replace path key.secret fileMode with
      | .error e => (.error (.file e), files)
      | .ok files => (.ok key.id, files)

/-- Removes a key by its name. A key that is not there counts as removed. -/
def remove (store : KeyStore) (key : KeyPair) (files : Files) : Except VaultError String × Files :=
  match store.requireDir files with
  | .error e => (.error e, files)
  | .ok () =>
    match store.keyFile key.id with
    | .error e => (.error e, files)
    | .ok path =>
      if files.has path then
        match files.removeFile path with
        | .error e => (.error (.keyDelete path e), files)
        | .ok files => (.ok key.id, files)
      else (.ok key.id, files)

/-- The key files, in the order of the directory: names and contents. -/
def keyFiles (store : KeyStore) (files : Files) : Except VaultError (List (String × ByteArray)) :=
  match files.resolve store.dir with
  | .error e => .error (.file e)
  | .ok loc => .ok <| (files.children loc).filterMap fun
      | (name, .file content _) => if canHandle name then some (name, content) else none
      | (_, .directory) => none

/-- The key in a key file; a file that holds none is named in the error. -/
def readKey (store : KeyStore) (file : String × ByteArray) : Except VaultError KeyPair :=
  match KeyPair.ofFile file.2 with
  | .ok key => .ok key
  | .error (.invalidKey _ reason) => .error (.invalidKey (store.pathOf file.1) reason)
  | .error e => .error e

/-- The first key with an id. A file before it that holds no key is an error. -/
def findKey (store : KeyStore) (id : String) :
    List (String × ByteArray) → Except VaultError KeyPair
  | [] => .error (.keyNotFound id)
  | file :: rest =>
    match store.readKey file with
    | .error e => .error e
    | .ok key => if key.id = id then .ok key else store.findKey id rest

def get (store : KeyStore) (id : String) (files : Files) : Except VaultError KeyPair := do
  store.requireDir files
  let found ← store.keyFiles files
  if found.isEmpty then .error (.keyDirEmpty store.dir) else store.findKey id found

/-- Every key. One file that holds none is an error. -/
def all (store : KeyStore) (files : Files) : Except VaultError (List KeyPair) := do
  store.requireDir files
  let found ← store.keyFiles files
  found.mapM store.readKey

/-- Reads a key file from anywhere and adds its key. -/
def importFile (store : KeyStore) (path : String) (files : Files) :
    Except VaultError KeyPair × Files :=
  match files.read path with
  | .error e => (.error (.file e), files)
  | .ok bytes =>
    match KeyPair.ofFile bytes with
    | .error e => (.error e, files)
    | .ok key =>
      match store.add key files with
      | (.error e, files) => (.error e, files)
      | (.ok _, files) => (.ok key, files)

def generate (store : KeyStore) (created : String) (files : Files) (entropy : Entropy) :
    Except VaultError KeyPair × Files × Entropy :=
  match KeyPair.generate created entropy with
  | (.error e, entropy) => (.error e, files, entropy)
  | (.ok key, entropy) =>
    match store.add key files with
    | (.error e, files) => (.error e, files, entropy)
    | (.ok _, files) => (.ok key, files, entropy)

end KeyStore

end VaultSync
