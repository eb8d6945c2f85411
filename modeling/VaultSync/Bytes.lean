/-!
Byte strings as numbers, slices and words. They are compared byte by byte.
-/

namespace VaultSync.Bytes

/-- Byte strings are equal when their bytes are. -/
instance decidableEq : DecidableEq ByteArray := fun a b =>
  decidable_of_iff (a.data = b.data) ByteArray.ext_iff.symm

def replicate (n : Nat) (b : UInt8) : ByteArray :=
  ⟨Array.replicate n b⟩

/-- A part of a byte string from a position, at most of the given length. -/
def slice (b : ByteArray) (start length : Nat) : ByteArray :=
  b.extract start (start + length)

/-- The end of a byte string from a position. -/
def drop (b : ByteArray) (start : Nat) : ByteArray :=
  b.extract start b.size

/-- The byte at a position; nothing is read as zero. -/
def at0 (b : ByteArray) (i : Nat) : UInt8 :=
  if h : i < b.size then b[i] else 0

/-- The number of a byte string whose first byte is the least significant. -/
def toNatLE (b : ByteArray) : Nat :=
  b.toList.foldr (fun x n => n * 256 + x.toNat) 0

/-- The number of a byte string whose first byte is the most significant. -/
def toNatBE (b : ByteArray) : Nat :=
  b.toList.foldl (fun n x => n * 256 + x.toNat) 0

/-- The lowest bytes of a number, the least significant first. -/
def ofNatLE (length n : Nat) : ByteArray :=
  ⟨(Array.range length).map fun i => UInt8.ofNat (n >>> (8 * i))⟩

/-- The lowest bytes of a number, the most significant first. -/
def ofNatBE (length n : Nat) : ByteArray :=
  ⟨(Array.range length).map fun i => UInt8.ofNat (n >>> (8 * (length - 1 - i)))⟩

def zipWith (f : UInt8 → UInt8 → UInt8) (a b : ByteArray) : ByteArray :=
  ⟨Array.zipWith f a.data b.data⟩

/-- The exclusive or of two byte strings, as far as both reach. -/
def xor (a b : ByteArray) : ByteArray :=
  zipWith (· ^^^ ·) a b

/-- A word of four bytes, the most significant first. -/
def wordBE (b : ByteArray) (i : Nat) : UInt32 :=
  ((at0 b i).toUInt32 <<< 24) ||| ((at0 b (i + 1)).toUInt32 <<< 16) |||
    ((at0 b (i + 2)).toUInt32 <<< 8) ||| (at0 b (i + 3)).toUInt32

/-- A word of four bytes, the least significant first. -/
def wordLE (b : ByteArray) (i : Nat) : UInt32 :=
  ((at0 b (i + 3)).toUInt32 <<< 24) ||| ((at0 b (i + 2)).toUInt32 <<< 16) |||
    ((at0 b (i + 1)).toUInt32 <<< 8) ||| (at0 b i).toUInt32

/-- A word of eight bytes, the most significant first. -/
def longBE (b : ByteArray) (i : Nat) : UInt64 :=
  ((wordBE b i).toUInt64 <<< 32) ||| (wordBE b (i + 4)).toUInt64

/-- Adds a word of four bytes at the end, the most significant first. -/
def pushBE (b : ByteArray) (w : UInt32) : ByteArray :=
  (((b.push (w >>> 24).toUInt8).push (w >>> 16).toUInt8).push (w >>> 8).toUInt8).push w.toUInt8

/-- Adds a word of four bytes at the end, the least significant first. -/
def pushLE (b : ByteArray) (w : UInt32) : ByteArray :=
  (((b.push w.toUInt8).push (w >>> 8).toUInt8).push (w >>> 16).toUInt8).push (w >>> 24).toUInt8

/-- The ASCII text of bytes, each byte one character. -/
def toChars (b : ByteArray) : List Char :=
  b.toList.map fun x => Char.ofNat x.toNat

def ofChars (cs : List Char) : ByteArray :=
  (cs.map fun c => UInt8.ofNat c.toNat).toByteArray

end VaultSync.Bytes
