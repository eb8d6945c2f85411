import VaultSync.Crypto.ChaCha20
/-!
Authenticated encryption: ChaCha20 with a Poly1305 tag behind the ciphertext.
-/

namespace VaultSync.Crypto.Sealed

def modulus : Nat := (1 <<< 130) - 5

/-- The bits of the multiplier that are kept. -/
def multiplierMask : Nat := 0x0ffffffc0ffffffc0ffffffc0fffffff

/-- The Poly1305 tag of a message under a key of 32 bytes, used once. -/
def tag (key message : ByteArray) : ByteArray :=
  let r := Bytes.toNatLE (Bytes.slice key 0 16) &&& multiplierMask
  let s := Bytes.toNatLE (Bytes.slice key 16 16)
  let blocks := (message.size + 15) / 16
  let acc := (List.range blocks).foldl (fun acc i =>
    let part := Bytes.slice message (16 * i) 16
    (acc + Bytes.toNatLE part + (1 <<< (8 * part.size))) * r % modulus) 0
  Bytes.ofNatLE 16 (acc + s)

def padding (n : Nat) : ByteArray :=
  Bytes.replicate ((16 - n % 16) % 16) 0

def tagOf (key nonce ciphertext : ByteArray) : ByteArray :=
  let once := Bytes.slice (ChaCha20.block key nonce 0) 0 32
  tag once (ciphertext ++ padding ciphertext.size ++ Bytes.ofNatLE 8 0 ++
    Bytes.ofNatLE 8 ciphertext.size)

def encrypt (key nonce message : ByteArray) : ByteArray :=
  let ciphertext := ChaCha20.apply key nonce 1 message
  ciphertext ++ tagOf key nonce ciphertext

def decrypt? (key nonce sealed : ByteArray) : Option ByteArray :=
  if sealed.size < 16 then none
  else
    let ciphertext := Bytes.slice sealed 0 (sealed.size - 16)
    if tagOf key nonce ciphertext = Bytes.drop sealed (sealed.size - 16) then
      some (ChaCha20.apply key nonce 1 ciphertext)
    else none

end VaultSync.Crypto.Sealed
