import VaultSync.Crypto.Curve25519
import VaultSync.Encoding.Bech32
/-!
The two halves of an age key: the identity, which decrypts, and the recipient, which encrypts.
-/

namespace VaultSync.Age

/-- A secret key of 32 bytes. -/
structure Identity where
  secret : ByteArray
deriving DecidableEq

/-- A public key of 32 bytes. -/
structure Recipient where
  point : ByteArray
deriving DecidableEq

def keyLength : Nat := 32

/-- Why a written key is refused. -/
inductive KeyFault
  | encoding
  | wrongName
  | wrongLength
deriving DecidableEq, Repr

/-- The bytes of a key that is written under a name. -/
def readKey (name text : String) : Except KeyFault ByteArray :=
  match Bech32.decode? text with
  | none => .error .encoding
  | some (found, digits) =>
    if found ≠ name then .error .wrongName
    else
      match Bech32.toBytes? digits with
      | none => .error .encoding
      | some bytes => if bytes.size = keyLength then .ok bytes else .error .wrongLength

namespace Identity

/-- The name that identities are written under, in small letters. -/
def name : String := "age-secret-key-"

def faultMessage : KeyFault → String
  | .encoding => "invalid Bech32 encoding"
  | .wrongName => "incorrect HRP"
  | .wrongLength => "incorrect identity length"

def parse (text : String) : Except String Identity :=
  match readKey name text with
  | .ok bytes => .ok ⟨bytes⟩
  | .error fault => .error (faultMessage fault)

def toText (identity : Identity) : String :=
  String.ofList ((Bech32.encode name identity.secret).toList.map Text.upperAscii)

def recipient (identity : Identity) : Recipient :=
  ⟨Crypto.Curve25519.multiply identity.secret Crypto.Curve25519.base⟩

end Identity

namespace Recipient

def name : String := "age"

def faultMessage : KeyFault → String
  | .encoding => "invalid Bech32 encoding"
  | .wrongName => "incorrect HRP"
  | .wrongLength => "incorrect pubkey length"

def parse (text : String) : Except String Recipient :=
  match readKey name text with
  | .ok bytes => .ok ⟨bytes⟩
  | .error fault => .error (faultMessage fault)

def toText (recipient : Recipient) : String :=
  Bech32.encode name recipient.point

end Recipient

end VaultSync.Age
