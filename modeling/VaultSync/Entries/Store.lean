import VaultSync.Entries.Location
import VaultSync.Keys.Store
/-!
Password entries: files that are encrypted to every stored key, so that each device that has one of
them can read them.
-/

namespace VaultSync.Entries

/-- Encrypts an entry to all stored keys and writes it. -/
def encrypt (keys : KeyStore) (root name : String) (plain : ByteArray) (files : Files)
    (entropy : Entropy) : Except VaultError String × Files × Entropy :=
  match location root name, keys.all files with
  | .error e, _ => (.error e, files, entropy)
  | .ok _, .error e => (.error e, files, entropy)
  | .ok path, .ok recipients =>
    match KeyPair.encrypt plain recipients entropy with
    | (.error e, entropy) => (.error e, files, entropy)
    | (.ok sealed, entropy) =>
      match files.createParents path with
      | (.error e, files) => (.error (.file e), files, entropy)
      | (.ok (), files) =>
        match files.write path sealed with
        | .error e => (.error (.file e), files, entropy)
        | .ok files => (.ok path, files, entropy)

/-- Decrypts with the first key that opens; the error is that of the last one tried. -/
def openWith (sealed : ByteArray) (last : VaultError) : List KeyPair → Except VaultError ByteArray
  | [] => .error last
  | key :: rest =>
    match key.decrypt sealed with
    | .ok plain => .ok plain
    | .error e => openWith sealed e rest

/-- Decrypts an entry with the first stored key that opens it. -/
def decrypt (keys : KeyStore) (root name : String) (files : Files) : Except VaultError ByteArray := do
  let path ← location root name
  if files.isFile path then
    match files.read path with
    | .error e => .error (.file e)
    | .ok sealed =>
      let stored ← keys.all files
      openWith sealed (.decryptionFailed "no keys stored") stored
  else .error (.entryNotFound path)

end VaultSync.Entries
