import VaultSync.Bytes
/-!
The ChaCha20 key stream.
-/

namespace VaultSync.Crypto.ChaCha20

@[inline] def rotl (x : UInt32) (n : UInt32) : UInt32 :=
  (x <<< n) ||| (x >>> (32 - n))

/-- Mixes four words of the state. -/
def quarterRound (s : Array UInt32) (i j k l : Nat) : Array UInt32 :=
  let a := s.getD i 0
  let b := s.getD j 0
  let c := s.getD k 0
  let d := s.getD l 0
  let a := a + b
  let d := rotl (d ^^^ a) 16
  let c := c + d
  let b := rotl (b ^^^ c) 12
  let a := a + b
  let d := rotl (d ^^^ a) 8
  let c := c + d
  let b := rotl (b ^^^ c) 7
  (((s.setIfInBounds i a).setIfInBounds j b).setIfInBounds k c).setIfInBounds l d

/-- Mixes the columns of the state and then its diagonals. -/
def doubleRound (s : Array UInt32) : Array UInt32 :=
  let s := quarterRound s 0 4 8 12
  let s := quarterRound s 1 5 9 13
  let s := quarterRound s 2 6 10 14
  let s := quarterRound s 3 7 11 15
  let s := quarterRound s 0 5 10 15
  let s := quarterRound s 1 6 11 12
  let s := quarterRound s 2 7 8 13
  quarterRound s 3 4 9 14

/-- The state before the rounds: four fixed words, the key, the counter and the nonce. -/
def start (key nonce : ByteArray) (counter : UInt32) : Array UInt32 :=
  #[0x61707865, 0x3320646e, 0x79622d32, 0x6b206574] ++
    (Array.range 8).map (fun i => Bytes.wordLE key (4 * i)) ++
    #[counter] ++ (Array.range 3).map (fun i => Bytes.wordLE nonce (4 * i))

def block (key nonce : ByteArray) (counter : UInt32) : ByteArray :=
  let s := start key nonce counter
  let mixed := (List.range 10).foldl (fun s _ => doubleRound s) s
  (Array.zipWith (· + ·) s mixed).foldl Bytes.pushLE ByteArray.empty

/-- A message under the key stream, which begins at a counter. Doing it twice gives the message. -/
def apply (key nonce : ByteArray) (counter : Nat) (message : ByteArray) : ByteArray :=
  let blocks := (message.size + 63) / 64
  (List.range blocks).foldl (fun out i =>
    out ++ Bytes.xor (Bytes.slice message (64 * i) 64)
      (block key nonce (UInt32.ofNat (counter + i)))) ByteArray.empty

end VaultSync.Crypto.ChaCha20
