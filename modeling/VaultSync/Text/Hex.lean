/-!
Numbers and bytes in base sixteen.
-/

namespace VaultSync.Text

/-- The digit of a number below sixteen, in small letters. -/
def hexDigit (n : Nat) : Char :=
  if n < 10 then Char.ofNat (48 + n) else Char.ofNat (87 + n)

/-- The digit of a number below sixteen, in capitals. -/
def upperHexDigit (n : Nat) : Char :=
  if n < 10 then Char.ofNat (48 + n) else Char.ofNat (55 + n)

/-- The digits of a number in base sixteen, most significant first, behind those already written. -/
def hexDigitsInto (n : Nat) (written : List Char) : List Char :=
  if n < 16 then hexDigit n :: written
  else hexDigitsInto (n / 16) (hexDigit (n % 16) :: written)
termination_by n

def hexOfNat (n : Nat) : String :=
  String.ofList (hexDigitsInto n [])

def hexOfByte (b : UInt8) : List Char :=
  [hexDigit (b.toNat / 16), hexDigit (b.toNat % 16)]

def hexOfBytes (bytes : ByteArray) : String :=
  String.ofList (bytes.toList.flatMap hexOfByte)

/-- The value of a digit in base sixteen, in either case. -/
def hexValue? (c : Char) : Option Nat :=
  if '0' ≤ c ∧ c ≤ '9' then some (c.toNat - 48)
  else if 'a' ≤ c ∧ c ≤ 'f' then some (c.toNat - 87)
  else if 'A' ≤ c ∧ c ≤ 'F' then some (c.toNat - 55)
  else none

def bytesOfHexChars? : List Char → Option (List UInt8)
  | [] => some []
  | [_] => none
  | a :: b :: rest => do
    let hi ← hexValue? a
    let lo ← hexValue? b
    let tail ← bytesOfHexChars? rest
    pure (UInt8.ofNat (hi * 16 + lo) :: tail)

def bytesOfHex? (s : String) : Option ByteArray :=
  (bytesOfHexChars? s.toList).map List.toByteArray

end VaultSync.Text
