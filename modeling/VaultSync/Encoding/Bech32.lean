import VaultSync.Bytes
import VaultSync.Text.Blank
/-!
Bech32: a readable name, the digit one, and data in base 32 with a checksum behind it.
-/

namespace VaultSync.Bech32

def alphabet : List Char := "qpzry9x8gf2tvdw0s3jn54khce6mua7l".toList

def valueOf? (c : Char) : Option Nat := alphabet.idxOf? c

def charOf (n : Nat) : Char := alphabet.getD n 'q'

def generators : List Nat := [0x3b6a57b2, 0x26508e6d, 0x1ea119fa, 0x3d4233dd, 0x2a1462b3]

def checkStep (check digit : Nat) : Nat :=
  let top := check >>> 25
  let next := ((check &&& 0x1ffffff) <<< 5) ^^^ digit
  (List.range 5).foldl (fun c i => if top.testBit i then c ^^^ generators.getD i 0 else c) next

def check (digits : List Nat) : Nat := digits.foldl checkStep 1

/-- The readable name as digits. -/
def expand (name : List Char) : List Nat :=
  name.map (fun c => c.toNat / 32) ++ [0] ++ name.map fun c => c.toNat % 32

/-- Bits in groups, the last one filled up with zeros. -/
def regroup (fromBits toBits : Nat) (groups : List Nat) : List Nat :=
  let bits := groups.flatMap fun g => (List.range fromBits).map fun i => g.testBit (fromBits - 1 - i)
  let count := (bits.length + toBits - 1) / toBits
  (List.range count).map fun k =>
    (List.range toBits).foldl (fun n i => 2 * n + (if bits.getD (k * toBits + i) false then 1 else 0)) 0

def encode (name : String) (bytes : ByteArray) : String :=
  let data := regroup 8 5 (bytes.toList.map UInt8.toNat)
  let sum := (check (expand name.toList ++ data ++ List.replicate 6 0)) ^^^ 1
  let digits := data ++ (List.range 6).map fun i => (sum >>> (5 * (5 - i))) % 32
  String.ofList (name.toList ++ '1' :: digits.map charOf)

def maxNameLength : Nat := 83

/-- The name and the data of a text, each digit a number below 32. Capitals and small letters do not
mix. -/
def decode? (text : String) : Option (String × List Nat) := do
  let cs := text.toList
  let hasLower := cs.any fun c => 'a' ≤ c && c ≤ 'z'
  let hasUpper := cs.any fun c => 'A' ≤ c && c ≤ 'Z'
  if hasLower && hasUpper then none else
  let lower := cs.map Text.lowerAscii
  let tail := lower.reverse.takeWhile (· ≠ '1')
  let name := (lower.reverse.drop (tail.length + 1)).reverse
  if tail.length = lower.length then none else
  if name.isEmpty ∨ maxNameLength < name.length ∨ tail.length < 6 then none else
  if name.any fun c => c.toNat < 33 || 126 < c.toNat then none else
  let digits ← tail.reverse.mapM valueOf?
  if check (expand name ++ digits) = 1 then
    pure (String.ofList name, digits.dropLast.dropLast.dropLast.dropLast.dropLast.dropLast)
  else none

/-- Digits as bytes. What is left over is less than a digit and zero. -/
def toBytes? (digits : List Nat) : Option ByteArray :=
  let bytes := regroup 5 8 digits
  let spare := digits.length * 5 % 8
  let whole := digits.length * 5 / 8
  if spare ≥ 5 then none
  else if (bytes.drop whole).any (· ≠ 0) then none
  else some ((bytes.take whole).map UInt8.ofNat).toByteArray

end VaultSync.Bech32
