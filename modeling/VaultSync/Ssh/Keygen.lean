import VaultSync.Entropy
import VaultSync.Files
import VaultSync.Ssh.Pem
/-!
The tool that makes ssh keys and checks their passphrases. Without the tool on the system, every use of
it fails.
-/

namespace VaultSync.Ssh

/-- Opens a private key file with a passphrase. The older forms are tried where the text is no
envelope. -/
def unlockKey (content passphrase : ByteArray) : Except KeyFault Unit :=
  let text := Bytes.toChars content
  match Envelope.ofText? text with
  | some envelope => envelope.unlock passphrase
  | none =>
    match Pem.ofText? text with
    | some pem => pem.unlock passphrase
    | none => .error .malformed

/-- Whether a private key file opens with a passphrase. The empty one is tried first, so that a key
that is not protected opens with any. -/
def opens (content passphrase : ByteArray) : Bool :=
  match unlockKey content ByteArray.empty with
  | .ok () => true
  | .error .malformed => false
  | .error .wrongPassphrase => (unlockKey content passphrase).isOk

/-- The key tool of a system. -/
structure Keygen where
  available : Bool
deriving DecidableEq, Repr

namespace Keygen

def program : String := "ssh-keygen"

def comment : String := "passync"

def privateMode : Nat := 0o600

/-- Whether a mode keeps everyone but the owner out. -/
def isPrivateMode (mode : Nat) : Bool :=
  mode % 0o100 = 0

def checkRun (keygen : Keygen) (arguments : List String) : Except VaultError Unit :=
  let failed := fun reason => .error (.keyProvisioning s!"Failed to run {program}: {reason}")
  if arguments.any (·.toList.contains '\x00') then failed "nul byte found in provided data"
  else if keygen.available then .ok ()
  else failed FileError.notFound.message

/-- Whether a key file opens with a passphrase. A file that others can read is not opened. -/
def verify (keygen : Keygen) (path passphrase : String) (files : Files) : Except VaultError Bool := do
  keygen.checkRun [passphrase, path]
  match files.stat path with
  | .ok (.file content mode) => pure (isPrivateMode mode && opens content passphrase.toUTF8)
  | _ => pure false

/-- Whether a key file needs a passphrase. One that does not open at all counts as such. -/
def isEncrypted (keygen : Keygen) (path : String) (files : Files) : Except VaultError Bool := do
  pure !(← keygen.verify path "" files)

def reason (error : FileError) : String :=
  String.intercalate " (os error" ((error.message.splitOn " (os error").dropLast)

/-- Writes the two files of a new key. None means that they were written. -/
def save (path : String) (check seed : ByteArray) (files : Files) : Option String × Files :=
  match files.replace path (Envelope.encode check seed comment).toUTF8 privateMode with
  | .error e => (some ("Saving key \"" ++ path ++ "\" failed: " ++ reason e), files)
  | .ok files =>
    let line := (PublicKey.line (Envelope.pointOf seed) comment).toUTF8
    match files.write (path ++ ".pub") line with
    | .error e => (some ("Unable to save public key to " ++ path ++ ".pub: " ++ reason e), files)
    | .ok files => (none, files)

/-- Makes an unprotected key at a path and its public half beside it. A file that is there stays. -/
def generate (keygen : Keygen) (path : String) (files : Files) (entropy : Entropy) :
    Except VaultError Unit × Files × Entropy :=
  if !keygen.available then
    (.error (.keyProvisioning s!"{program} was not found on this system"), files, entropy)
  else
    match files.createParents path with
    | (.error e, files) => (.error (.file e), files, entropy)
    | (.ok (), files) =>
      match keygen.checkRun [path] with
      | .error e => (.error e, files, entropy)
      | .ok () =>
        let failed := fun text => .error (.keyProvisioning (s!"{program} exited with error: " ++ text))
        if files.has path then (failed "", files, entropy)
        else
          let (seed, entropy) := entropy.draw 32
          let (check, entropy) := entropy.draw 4
          match save path check seed files with
          | (some text, files) => (failed text, files, entropy)
          | (none, files) => (.ok (), files, entropy)

end Keygen

end VaultSync.Ssh
