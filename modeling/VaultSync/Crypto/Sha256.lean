import VaultSync.Bytes
/-!
SHA-256, the message authentication code over it, and the derivation of keys from that code.
-/

namespace VaultSync.Crypto.Sha256

/-- The round constants: the first bits of the fractional parts of the cube roots of primes. -/
def roundConstants : Array UInt32 :=
  #[0x428a2f98, 0x71374491, 0xb5c0fbcf, 0xe9b5dba5, 0x3956c25b, 0x59f111f1, 0x923f82a4, 0xab1c5ed5,
    0xd807aa98, 0x12835b01, 0x243185be, 0x550c7dc3, 0x72be5d74, 0x80deb1fe, 0x9bdc06a7, 0xc19bf174,
    0xe49b69c1, 0xefbe4786, 0x0fc19dc6, 0x240ca1cc, 0x2de92c6f, 0x4a7484aa, 0x5cb0a9dc, 0x76f988da,
    0x983e5152, 0xa831c66d, 0xb00327c8, 0xbf597fc7, 0xc6e00bf3, 0xd5a79147, 0x06ca6351, 0x14292967,
    0x27b70a85, 0x2e1b2138, 0x4d2c6dfc, 0x53380d13, 0x650a7354, 0x766a0abb, 0x81c2c92e, 0x92722c85,
    0xa2bfe8a1, 0xa81a664b, 0xc24b8b70, 0xc76c51a3, 0xd192e819, 0xd6990624, 0xf40e3585, 0x106aa070,
    0x19a4c116, 0x1e376c08, 0x2748774c, 0x34b0bcb5, 0x391c0cb3, 0x4ed8aa4a, 0x5b9cca4f, 0x682e6ff3,
    0x748f82ee, 0x78a5636f, 0x84c87814, 0x8cc70208, 0x90befffa, 0xa4506ceb, 0xbef9a3f7, 0xc67178f2]

/-- The state before the first block: from the square roots of primes. -/
def initial : Array UInt32 :=
  #[0x6a09e667, 0xbb67ae85, 0x3c6ef372, 0xa54ff53a, 0x510e527f, 0x9b05688c, 0x1f83d9ab, 0x5be0cd19]

@[inline] def rotr (x : UInt32) (n : UInt32) : UInt32 :=
  (x >>> n) ||| (x <<< (32 - n))

/-- A message with its padding: a one bit, zeros, and the length in bits. -/
def pad (message : ByteArray) : ByteArray :=
  let zeros := (119 - message.size % 64) % 64
  message ++ Bytes.replicate 1 0x80 ++ Bytes.replicate zeros 0 ++ Bytes.ofNatBE 8 (message.size * 8)

/-- The words that the rounds of a block take. -/
def schedule (message : ByteArray) (offset : Nat) : Array UInt32 := Id.run do
  let mut w : Array UInt32 := Array.emptyWithCapacity 64
  for i in [0:16] do
    w := w.push (Bytes.wordBE message (offset + 4 * i))
  for i in [16:64] do
    let a := w.getD (i - 15) 0
    let b := w.getD (i - 2) 0
    let s₀ := rotr a 7 ^^^ rotr a 18 ^^^ (a >>> 3)
    let s₁ := rotr b 17 ^^^ rotr b 19 ^^^ (b >>> 10)
    w := w.push (w.getD (i - 16) 0 + s₀ + w.getD (i - 7) 0 + s₁)
  return w

def compress (state : Array UInt32) (message : ByteArray) (offset : Nat) : Array UInt32 := Id.run do
  let w := schedule message offset
  let mut a := state.getD 0 0
  let mut b := state.getD 1 0
  let mut c := state.getD 2 0
  let mut d := state.getD 3 0
  let mut e := state.getD 4 0
  let mut f := state.getD 5 0
  let mut g := state.getD 6 0
  let mut h := state.getD 7 0
  for i in [0:64] do
    let s₁ := rotr e 6 ^^^ rotr e 11 ^^^ rotr e 25
    let ch := (e &&& f) ^^^ ((~~~ e) &&& g)
    let t₁ := h + s₁ + ch + roundConstants.getD i 0 + w.getD i 0
    let s₀ := rotr a 2 ^^^ rotr a 13 ^^^ rotr a 22
    let maj := (a &&& b) ^^^ (a &&& c) ^^^ (b &&& c)
    h := g
    g := f
    f := e
    e := d + t₁
    d := c
    c := b
    b := a
    a := t₁ + (s₀ + maj)
  return Array.zipWith (· + ·) state #[a, b, c, d, e, f, g, h]

def hash (message : ByteArray) : ByteArray :=
  let padded := pad message
  let state := (List.range (padded.size / 64)).foldl (fun s i => compress s padded (64 * i)) initial
  state.foldl Bytes.pushBE ByteArray.empty

/-- The authentication code of a message under a key. -/
def hmac (key message : ByteArray) : ByteArray :=
  let key := if key.size > 64 then hash key else key
  let key := key ++ Bytes.replicate (64 - key.size) 0
  let inner := Bytes.xor key (Bytes.replicate 64 0x36)
  let outer := Bytes.xor key (Bytes.replicate 64 0x5c)
  hash (outer ++ hash (inner ++ message))

/-- A key of 32 bytes derived from secret material, a salt and a purpose. -/
def deriveKey (material salt info : ByteArray) : ByteArray :=
  let secret := hmac (if salt.isEmpty then Bytes.replicate 32 0 else salt) material
  hmac secret (info.push 1)

end VaultSync.Crypto.Sha256
