import VaultSync.Bytes
/-!
AES with keys of 16, 24 and 32 bytes: single blocks, a key stream from a counter, and the reading of
chained blocks.
-/

namespace VaultSync.Crypto.Aes

/-! ### Bytes as elements of the field -/

def double (b : UInt8) : UInt8 :=
  (b <<< 1) ^^^ (if b &&& 0x80 = 0 then 0 else 0x1b)

def mul (a b : UInt8) : UInt8 :=
  ((List.range 8).foldl (fun (acc, a) i =>
    (if (b >>> UInt8.ofNat i) &&& 1 = 0 then acc else acc ^^^ a, double a))
    ((0, a) : UInt8 × UInt8)).1

/-- The inverse of a byte; that of zero is zero. -/
def inverse (b : UInt8) : UInt8 :=
  ((List.range 7).foldl (fun (acc, square) _ =>
    let square := mul square square
    (mul acc square, square)) ((1, b) : UInt8 × UInt8)).1

def rotate (b n : UInt8) : UInt8 :=
  (b <<< n) ||| (b >>> (8 - n))

def substitution : Array UInt8 :=
  (Array.range 256).map fun n =>
    let b := inverse (UInt8.ofNat n)
    b ^^^ rotate b 1 ^^^ rotate b 2 ^^^ rotate b 3 ^^^ rotate b 4 ^^^ 0x63

def substitutionBack : Array UInt8 :=
  (List.range 256).foldl (fun table n =>
    table.setIfInBounds (substitution.getD n 0).toNat (UInt8.ofNat n)) (Array.replicate 256 0)

def substitute (b : UInt8) : UInt8 :=
  substitution.getD b.toNat 0

/-! ### Keys -/

def power : Nat → UInt8
  | 0 => 1
  | n + 1 => double (power n)

/-- The four bytes that follow `n` words of four bytes in a key schedule. -/
def nextWord (keyWords n : Nat) (schedule : Array UInt8) : List UInt8 :=
  let word := fun i => (List.range 4).map fun j => schedule.getD (4 * i + j) 0
  let last := word (n - 1)
  let changed :=
    if n % keyWords = 0 then
      List.zipWith (· ^^^ ·) ((last.drop 1 ++ last.take 1).map substitute)
        [power (n / keyWords - 1), 0, 0, 0]
    else if 6 < keyWords ∧ n % keyWords = 4 then last.map substitute
    else last
  List.zipWith (· ^^^ ·) changed (word (n - keyWords))

def rounds (key : ByteArray) : Nat :=
  key.size / 4 + 6

/-- The keys of the rounds, one behind the other. -/
def schedule (key : ByteArray) : Array UInt8 :=
  let words := key.size / 4
  (List.range (4 * (rounds key + 1) - words)).foldl (fun s i =>
    s ++ (nextWord words (words + i) s).toArray) key.data

/-! ### Blocks -/

def addKey (keys : Array UInt8) (round : Nat) (block : Array UInt8) : Array UInt8 :=
  block.mapIdx fun i b => b ^^^ keys.getD (16 * round + i) 0

/-- Moves row `r` of the columns by `step * r` columns. -/
def shiftRows (step : Nat) (block : Array UInt8) : Array UInt8 :=
  (Array.range 16).map fun i => block.getD ((i + 4 * step * (i % 4)) % 16) 0

/-- Multiplies every column by a circulant matrix, given by its first row. -/
def mixColumns (row : Array UInt8) (block : Array UInt8) : Array UInt8 :=
  (Array.range 16).map fun i =>
    (List.range 4).foldl (fun acc j =>
      acc ^^^ mul (block.getD (i / 4 * 4 + j) 0) (row.getD ((j + 4 - i % 4) % 4) 0)) 0

def encryptBlock (keys : Array UInt8) (rounds : Nat) (block : Array UInt8) : Array UInt8 :=
  let inner := (List.range (rounds - 1)).foldl (fun s i =>
    addKey keys (i + 1) (mixColumns #[2, 3, 1, 1] (shiftRows 1 (s.map substitute))))
    (addKey keys 0 block)
  addKey keys rounds (shiftRows 1 (inner.map substitute))

def decryptBlock (keys : Array UInt8) (rounds : Nat) (block : Array UInt8) : Array UInt8 :=
  let back := fun s => (shiftRows 3 s).map fun b => substitutionBack.getD b.toNat 0
  let inner := (List.range (rounds - 1)).foldl (fun s i =>
    mixColumns #[14, 11, 13, 9] (addKey keys (rounds - 1 - i) (back s)))
    (addKey keys rounds block)
  addKey keys 0 (back inner)

def blockSize : Nat := 16

/-! ### Messages -/

/-- A message under the key stream of a counter, which is a number of 16 bytes. Doing it twice gives
the message. -/
def applyCounter (key counter message : ByteArray) : ByteArray :=
  let keys := schedule key
  let start := Bytes.toNatBE counter
  (List.range ((message.size + blockSize - 1) / blockSize)).foldl (fun out i =>
    out ++ Bytes.xor (Bytes.slice message (blockSize * i) blockSize)
      ⟨encryptBlock keys (rounds key) (Bytes.ofNatBE blockSize (start + i)).data⟩) ByteArray.empty

/-- The message behind chained blocks: every block was mixed with the one before it. -/
def decryptChained (key initial cipher : ByteArray) : ByteArray :=
  let keys := schedule key
  (List.range (cipher.size / blockSize)).foldl (fun out i =>
    let before := if i = 0 then initial else Bytes.slice cipher (blockSize * (i - 1)) blockSize
    out ++ Bytes.xor before
      ⟨decryptBlock keys (rounds key) (Bytes.slice cipher (blockSize * i) blockSize).data⟩)
    ByteArray.empty

end VaultSync.Crypto.Aes
