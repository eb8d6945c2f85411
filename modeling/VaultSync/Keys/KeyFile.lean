import VaultSync.Age.File
import VaultSync.Error
import VaultSync.Keys.KeyPair
import VaultSync.Text.Hex
/-!
Key files, and encryption with the keys they hold. A key file is text with a line for the secret; the
id of a key is derived from its recipient, so that all files with one secret have one id.
-/

namespace VaultSync

namespace KeyPair

/-- How many bytes of a digest make an id. -/
def fingerprintBytes : Nat := 20

/-- The id of a recipient: the start of its digest in capitals. -/
def fingerprint (recipient : String) : String :=
  let digest := Crypto.Sha256.hash recipient.toUTF8
  String.ofList ((Bytes.slice digest 0 fingerprintBytes).toList.flatMap fun b =>
    [Text.upperHexDigit (b.toNat / 16), Text.upperHexDigit (b.toNat % 16)])

/-- What the line of a secret starts with. -/
def secretMark : List Char := "AGE-SECRET-KEY-".toList

/-- The first line of a text that holds a secret, without the blanks around it. -/
def secretLine? (text : String) : Option String :=
  ((Text.lineChars text.toList).map Text.trimChars).find? (secretMark.isPrefixOf ·) |>.map String.ofList

def invalid (reason : String) : VaultError :=
  .invalidKey "key material" reason

def identityOf (bytes : ByteArray) : Except VaultError Age.Identity :=
  match String.fromUTF8? bytes with
  | none => .error (invalid "key is not UTF-8 text")
  | some text =>
    match secretLine? text with
    | none => .error (invalid "no AGE-SECRET-KEY line found")
    | some line =>
      match Age.Identity.parse line with
      | .ok identity => .ok identity
      | .error reason => .error (invalid reason)

def ofFile (bytes : ByteArray) : Except VaultError KeyPair := do
  let identity ← identityOf bytes
  let recipient := identity.recipient.toText
  pure ⟨fingerprint recipient, bytes, some recipient.toUTF8⟩

def fileText (created : String) (identity : Age.Identity) : String :=
  "# created: " ++ created ++ "\n# public key: " ++ identity.recipient.toText ++ "\n" ++
    identity.toText ++ "\n"

def generate (created : String) (entropy : Entropy) : Except VaultError KeyPair × Entropy :=
  let (secret, entropy) := entropy.draw Age.keyLength
  (ofFile (fileText created ⟨secret⟩).toUTF8, entropy)

def ageRecipient (key : KeyPair) : Except VaultError Age.Recipient :=
  match key.recipientText? with
  | none => .error (.encryptionFailed s!"Key '{key.id}' has no public part")
  | some text =>
    match Age.Recipient.parse text with
    | .ok recipient => .ok recipient
    | .error reason => .error (.encryptionFailed s!"Invalid recipient '{text}': {reason}")

def encrypt (plain : ByteArray) (keys : List KeyPair) (entropy : Entropy) :
    Except VaultError ByteArray × Entropy :=
  if keys.isEmpty then (.error (.encryptionFailed "No recipients provided"), entropy)
  else
    match keys.mapM ageRecipient with
    | .error e => (.error e, entropy)
    | .ok recipients =>
      let (file, entropy) := Age.encrypt plain recipients entropy
      (.ok file, entropy)

def decrypt (key : KeyPair) (file : ByteArray) : Except VaultError ByteArray := do
  let identity ← identityOf key.secret
  match Age.decrypt file identity with
  | .ok plain => pure plain
  | .error fault => .error (.decryptionFailed fault.message)

end KeyPair

end VaultSync
