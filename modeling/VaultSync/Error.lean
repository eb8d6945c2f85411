/-!
What goes wrong with keys, entries, the configuration and authentication, and the message of each.
File errors keep the wording of the operating system.
-/

namespace VaultSync

/-- A failure of a file operation. -/
inductive FileError
  | notFound
  | exists
  | notDirectory
  | isDirectory
  | directoryNotEmpty
  | nameTooLong
  | nulInName
  | notText
  | other (text : String)
deriving DecidableEq, Repr

namespace FileError

def message : FileError → String
  | notFound => "No such file or directory (os error 2)"
  | .exists => "File exists (os error 17)"
  | notDirectory => "Not a directory (os error 20)"
  | isDirectory => "Is a directory (os error 21)"
  | directoryNotEmpty => "Directory not empty (os error 39)"
  | nameTooLong => "File name too long (os error 36)"
  | nulInName => "file name contained an unexpected NUL byte"
  | notText => "stream did not contain valid UTF-8"
  | other text => text

end FileError

/-- A failure outside the sync pipeline. -/
inductive VaultError
  | keyDirCreate (path : String) (source : FileError)
  | keyDirMissing (path : String)
  | keyDirEmpty (path : String)
  | keyNotFound (id : String)
  | keyDelete (path : String) (source : FileError)
  | invalidKeyId (id : String)
  | invalidKey (origin reason : String)
  | invalidEntryName (name : String)
  | entryNotFound (path : String)
  | encryptionFailed (reason : String)
  | decryptionFailed (reason : String)
  | invalidConfig (detail : String)
  | formatVersionTooNew (found supported : Nat)
  | keyProvisioning (detail : String)
  | prompt (detail : String)
  | taskFailed (detail : String)
  | file (source : FileError)
deriving DecidableEq, Repr

namespace VaultError

def message : VaultError → String
  | keyDirCreate path source =>
    s!"Could not create key directory {path}: {source.message}\n\n  " ++
      "Check that the parent directory exists and is writable."
  | keyDirMissing path =>
    s!"Key directory does not exist: {path}\n\n  " ++
      "Import or generate a key first:\n    " ++
      "→ passync keys import <file>\n    " ++
      "→ passync keys generate"
  | keyDirEmpty path =>
    s!"No keys available in {path}\n\n  " ++
      "Import or generate a key first: passync keys generate"
  | keyNotFound id =>
    s!"No key found with id '{id}'\n\n  " ++
      "Run 'passync keys list' to see the stored keys."
  | keyDelete path source => s!"Could not delete key file {path}: {source.message}"
  | invalidKeyId id =>
    s!"Invalid key id '{id}'\n\n  " ++
      "Key ids may only contain letters, digits, '.', '_' and '-'."
  | invalidKey origin reason => s!"Invalid key in {origin}: {reason}"
  | invalidEntryName name =>
    s!"Invalid entry name '{name}'\n\n  " ++
      "Use a relative path such as 'email/work' without '..' components."
  | entryNotFound path =>
    s!"No password entry at {path}\n\n  " ++
      "Run 'passync pull' if it was added on another device."
  | encryptionFailed reason => s!"Encryption failed: {reason}"
  | decryptionFailed reason =>
    s!"Decryption failed: {reason}\n\n  " ++
      "None of the stored keys can open this entry."
  | invalidConfig detail => s!"Invalid configuration: {detail}"
  | formatVersionTooNew found supported =>
    s!"This data directory uses format version {found}, but this build " ++
      s!"only supports up to version {supported}."
  | keyProvisioning detail =>
    s!"Key provisioning failed: {detail}\n\n  " ++
      "Solutions:\n    " ++
      "→ Import an existing key: passync keys import <file>\n    " ++
      "→ Or check that 'ssh-keygen' is installed"
  | prompt detail => s!"Prompt failed: {detail}"
  | taskFailed detail => s!"Background task failed: {detail}"
  | file source => source.message

/-- The message of the file error behind a failure that adds words of its own to one. -/
def source? : VaultError → Option String
  | keyDirCreate _ source | keyDelete _ source => some source.message
  | _ => none

end VaultError

end VaultSync
