import VaultSync.Bytes
/-!
Base 64 with the standard alphabet. Reading is strict: spare bits must be zero.
-/

namespace VaultSync.Base64

def charOf (n : Nat) : Char :=
  if n < 26 then Char.ofNat (65 + n)
  else if n < 52 then Char.ofNat (71 + n)
  else if n < 62 then Char.ofNat (n - 4)
  else if n = 62 then '+'
  else '/'

def valueOf? (c : Char) : Option Nat :=
  if 'A' ≤ c ∧ c ≤ 'Z' then some (c.toNat - 65)
  else if 'a' ≤ c ∧ c ≤ 'z' then some (c.toNat - 71)
  else if '0' ≤ c ∧ c ≤ '9' then some (c.toNat + 4)
  else if c = '+' then some 62
  else if c = '/' then some 63
  else none

def encodeChars : List UInt8 → List Char
  | a :: b :: c :: rest =>
    let n := a.toNat * 65536 + b.toNat * 256 + c.toNat
    charOf (n / 262144) :: charOf (n / 4096 % 64) :: charOf (n / 64 % 64) :: charOf (n % 64) ::
      encodeChars rest
  | [a, b] =>
    let n := a.toNat * 1024 + b.toNat * 4
    [charOf (n / 4096), charOf (n / 64 % 64), charOf (n % 64)]
  | [a] =>
    let n := a.toNat * 16
    [charOf (n / 64), charOf (n % 64)]
  | [] => []

def encode (bytes : ByteArray) : List Char :=
  encodeChars bytes.toList

/-- Bytes with padding to a multiple of four characters. -/
def encodePadded (bytes : ByteArray) : List Char :=
  let cs := encode bytes
  cs ++ List.replicate ((4 - cs.length % 4) % 4) '='

def decodeChars? : List Char → Option (List UInt8)
  | a :: b :: c :: d :: rest => do
    let n := (← valueOf? a) * 262144 + (← valueOf? b) * 4096 + (← valueOf? c) * 64 + (← valueOf? d)
    let tail ← decodeChars? rest
    pure (UInt8.ofNat (n / 65536) :: UInt8.ofNat (n / 256) :: UInt8.ofNat n :: tail)
  | [a, b, c] => do
    let n := (← valueOf? a) * 4096 + (← valueOf? b) * 64 + (← valueOf? c)
    if n % 4 = 0 then pure [UInt8.ofNat (n / 1024), UInt8.ofNat (n / 4)] else none
  | [a, b] => do
    let n := (← valueOf? a) * 64 + (← valueOf? b)
    if n % 16 = 0 then pure [UInt8.ofNat (n / 16)] else none
  | [_] => none
  | [] => some []

def decode? (cs : List Char) : Option ByteArray :=
  (decodeChars? cs).map List.toByteArray

/-- Reads bytes with padding to a multiple of four characters. -/
def decodePadded? (cs : List Char) : Option ByteArray :=
  if cs.length % 4 ≠ 0 then none
  else
    let body := cs.reverse.dropWhile (· = '=')
    if cs.length - body.length ≤ 2 then decode? body.reverse else none

end VaultSync.Base64
