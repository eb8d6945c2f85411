import VaultSync.Bytes
/-!
MD5. It only derives the keys of old private key files.
-/

namespace VaultSync.Crypto.Md5

/-- The round constants: the first bits of the sines of whole numbers. -/
def roundConstants : Array UInt32 :=
  #[0xd76aa478, 0xe8c7b756, 0x242070db, 0xc1bdceee, 0xf57c0faf, 0x4787c62a, 0xa8304613, 0xfd469501,
    0x698098d8, 0x8b44f7af, 0xffff5bb1, 0x895cd7be, 0x6b901122, 0xfd987193, 0xa679438e, 0x49b40821,
    0xf61e2562, 0xc040b340, 0x265e5a51, 0xe9b6c7aa, 0xd62f105d, 0x02441453, 0xd8a1e681, 0xe7d3fbc8,
    0x21e1cde6, 0xc33707d6, 0xf4d50d87, 0x455a14ed, 0xa9e3e905, 0xfcefa3f8, 0x676f02d9, 0x8d2a4c8a,
    0xfffa3942, 0x8771f681, 0x6d9d6122, 0xfde5380c, 0xa4beea44, 0x4bdecfa9, 0xf6bb4b60, 0xbebfbc70,
    0x289b7ec6, 0xeaa127fa, 0xd4ef3085, 0x04881d05, 0xd9d4d039, 0xe6db99e5, 0x1fa27cf8, 0xc4ac5665,
    0xf4292244, 0x432aff97, 0xab9423a7, 0xfc93a039, 0x655b59c3, 0x8f0ccc92, 0xffeff47d, 0x85845dd1,
    0x6fa87e4f, 0xfe2ce6e0, 0xa3014314, 0x4e0811a1, 0xf7537e82, 0xbd3af235, 0x2ad7d2bb, 0xeb86d391]

def rotations : Array UInt32 :=
  #[7, 12, 17, 22, 7, 12, 17, 22, 7, 12, 17, 22, 7, 12, 17, 22, 5, 9, 14, 20, 5, 9, 14, 20, 5, 9, 14, 20, 5, 9, 14, 20,
    4, 11, 16, 23, 4, 11, 16, 23, 4, 11, 16, 23, 4, 11, 16, 23, 6, 10, 15, 21, 6, 10, 15, 21, 6, 10, 15, 21, 6, 10, 15, 21]

/-- A message with its padding: a one bit, zeros, and the length in bits. -/
def pad (message : ByteArray) : ByteArray :=
  let zeros := (119 - message.size % 64) % 64
  message ++ Bytes.replicate 1 0x80 ++ Bytes.replicate zeros 0 ++ Bytes.ofNatLE 8 (message.size * 8)

def compress (state : Array UInt32) (message : ByteArray) (offset : Nat) : Array UInt32 := Id.run do
  let mut a := state.getD 0 0
  let mut b := state.getD 1 0
  let mut c := state.getD 2 0
  let mut d := state.getD 3 0
  for i in [0:64] do
    let (f, g) :=
      if i < 16 then ((b &&& c) ||| ((~~~ b) &&& d), i)
      else if i < 32 then ((d &&& b) ||| ((~~~ d) &&& c), (5 * i + 1) % 16)
      else if i < 48 then (b ^^^ c ^^^ d, (3 * i + 5) % 16)
      else (c ^^^ (b ||| (~~~ d)), (7 * i) % 16)
    let x := f + a + roundConstants.getD i 0 + Bytes.wordLE message (offset + 4 * g)
    let r := rotations.getD i 0
    a := d
    d := c
    c := b
    b := b + ((x <<< r) ||| (x >>> (32 - r)))
  return Array.zipWith (· + ·) state #[a, b, c, d]

def hash (message : ByteArray) : ByteArray :=
  let padded := pad message
  let start : Array UInt32 := #[0x67452301, 0xefcdab89, 0x98badcfe, 0x10325476]
  let state := (List.range (padded.size / 64)).foldl (fun s i => compress s padded (64 * i)) start
  state.foldl Bytes.pushLE ByteArray.empty

end VaultSync.Crypto.Md5
