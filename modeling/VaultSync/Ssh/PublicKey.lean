import VaultSync.Encoding.Base64
import VaultSync.Ssh.Wire
/-!
Public keys of ssh, and what is read of the private keys they belong to.
-/

namespace VaultSync.Ssh

/-- A public key. -/
inductive PublicKey
  | ed25519 (point : ByteArray)
  /-- A point of the curve with the given name. -/
  | ecdsa (curve : String) (point : ByteArray)
  | rsa (exponent modulus : Nat)
deriving DecidableEq

namespace PublicKey

/-- The name of the keys on the twisted curve. -/
def ed25519Name : String := "ssh-ed25519"

/-- What the names of keys on the other curves start with. -/
def ecdsaStem : String := "ecdsa-sha2-"

def rsaName : String := "ssh-rsa"

/-- The curves besides the twisted one, with the lengths of their coordinates. -/
def curves : List (String × Nat) :=
  [("nistp256", 32), ("nistp384", 48), ("nistp521", 66)]

/-- Takes a point of a curve, both of whose coordinates are written out. -/
def takePoint? (curve : String) (b : ByteArray) : Option (PublicKey × ByteArray) := do
  let (name, b) ← Wire.takeText? b
  let (point, b) ← Wire.takeString? b
  let length ← curves.lookup curve
  if name = curve ∧ point.size = 2 * length + 1 ∧ Bytes.at0 point 0 = 4 then
    pure (.ecdsa curve point, b)
  else none

def curve? (name : String) : Option String :=
  (curves.map (·.1)).find? fun curve => name = ecdsaStem ++ curve

/-- Whether a modulus has the 1024 bits that it must have at least. -/
def isLongModulus (modulus : Nat) : Bool :=
  1024 ≤ modulus.log2 + 1

/-- A key of two primes, which is not too short. -/
def rsa? (exponent modulus : Nat) : Option PublicKey :=
  if isLongModulus modulus then some (.rsa exponent modulus) else none

/-- Reads the written form of a key, to its end. -/
def ofBytes? (b : ByteArray) : Option PublicKey := do
  let (name, b) ← Wire.takeText? b
  let (key, rest) ←
    if name = ed25519Name then do
      let (point, b) ← Wire.takeString? b
      if point.size = 32 then pure (PublicKey.ed25519 point, b) else none
    else if name = rsaName then do
      let (exponent, b) ← Wire.takeNumber? b
      let (modulus, b) ← Wire.takeNumber? b
      pure (← rsa? exponent modulus, b)
    else do takePoint? (← curve? name) b
  if rest.isEmpty then pure key else none

/-- Takes the fields of a private key and gives the public key in them. -/
def takePrivate? (b : ByteArray) : Option (PublicKey × ByteArray) := do
  let (name, b) ← Wire.takeText? b
  if name = ed25519Name then
    let (point, b) ← Wire.takeString? b
    let (secret, b) ← Wire.takeString? b
    if point.size = 32 ∧ secret.size = 64 then pure (.ed25519 point, b) else none
  else if name = rsaName then
    let (modulus, b) ← Wire.takeNumber? b
    let (exponent, b) ← Wire.takeNumber? b
    let (_, b) ← Wire.takeNumber? b
    let (_, b) ← Wire.takeNumber? b
    let (_, b) ← Wire.takeNumber? b
    let (_, b) ← Wire.takeNumber? b
    pure (← rsa? exponent modulus, b)
  else
    let (key, b) ← takePoint? (← curve? name) b
    let (_, b) ← Wire.takeNumber? b
    pure (key, b)

/-- The written form of a key on the twisted curve. -/
def encodeEd25519 (point : ByteArray) : ByteArray :=
  Wire.encodeText ed25519Name ++ Wire.encodeString point

/-- The line that shows a key on the twisted curve to others, with a comment. -/
def line (point : ByteArray) (comment : String) : String :=
  ed25519Name ++ " " ++ String.ofList (Base64.encodePadded (encodeEd25519 point)) ++ " " ++ comment ++ "\n"

end PublicKey

end VaultSync.Ssh
