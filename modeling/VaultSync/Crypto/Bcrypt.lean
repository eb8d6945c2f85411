import VaultSync.Crypto.Blowfish
import VaultSync.Crypto.Sha512
/-!
Keys from passphrases by a slow function: a digest of the passphrase is run through an expensive key
schedule many times.
-/

namespace VaultSync.Crypto.Bcrypt

/-- The words of a byte string, the most significant byte of each first. -/
def words (bytes : ByteArray) : Array UInt32 :=
  (Array.range (bytes.size / 4)).map fun i => Bytes.wordBE bytes (4 * i)

def plainText : ByteArray := "OxychromaticBlowfishSwatDynamite".toUTF8

/-- How often the key and the salt are taken in, and how often the text is encrypted. -/
def cost : Nat := 64

def encryptOften (state : Array UInt32) : Nat → UInt32 → UInt32 → UInt32 × UInt32
  | 0, left, right => (left, right)
  | n + 1, left, right =>
    let (left, right) := Blowfish.encrypt state left right
    encryptOften state n left right

/-- Takes in the salt and the key in turn, a number of times. -/
def expandOften (salt key : Array UInt32) : Nat → Array UInt32 → Array UInt32
  | 0, state => state
  | n + 1, state =>
    expandOften salt key n (Blowfish.expand #[] key (Blowfish.expand #[] salt state))

def hashSize : Nat := 32

/-- The hash of the digests of a passphrase and of a salt. -/
def hash (pass salt : ByteArray) : ByteArray :=
  let salt := words salt
  let pass := words pass
  let state := expandOften salt pass cost (Blowfish.expand salt pass Blowfish.initial)
  let text := words plainText
  (List.range (text.size / 2)).foldl (fun out i =>
    let (left, right) := encryptOften state cost (text.getD (2 * i) 0) (text.getD (2 * i + 1) 0)
    Bytes.pushLE (Bytes.pushLE out left) right) ByteArray.empty

/-- Hashes of hashes, the given number of them, mixed into one. -/
def chain (pass : ByteArray) : Nat → ByteArray → ByteArray → ByteArray
  | 0, _, out => out
  | n + 1, last, out =>
    let next := hash pass (Sha512.hash last)
    chain pass n next (Bytes.xor out next)

/-- The block of a key that has a number. -/
def block (pass salt : ByteArray) (rounds number : Nat) : ByteArray :=
  let first := hash pass (Sha512.hash (salt ++ Bytes.ofNatBE 4 number))
  chain pass (rounds - 1) first first

def maxSalt : Nat := 1048576

/-- A key of the given length. Its bytes are taken from the blocks in turn. There is none for an empty
passphrase or salt, for no rounds, and for a length of zero or above 1024. -/
def deriveKey? (pass salt : ByteArray) (rounds length : Nat) : Option ByteArray :=
  if pass.isEmpty ∨ salt.isEmpty ∨ salt.size > maxSalt ∨ rounds = 0 ∨
      length = 0 ∨ length > hashSize * hashSize then none
  else
    let stride := (length + hashSize - 1) / hashSize
    let digest := Sha512.hash pass
    let blocks := (Array.range stride).map fun i => block digest salt rounds (i + 1)
    some ⟨(Array.range length).map fun i =>
      Bytes.at0 (blocks.getD (i % stride) ByteArray.empty) (i / stride)⟩

end VaultSync.Crypto.Bcrypt
