import VaultSync.Bytes
/-!
The fields of binary ssh messages: words of four bytes, and strings that their length precedes. A
reader gives a field and the bytes behind it.
-/

namespace VaultSync.Ssh.Wire

def encodeWord (n : Nat) : ByteArray :=
  Bytes.ofNatBE 4 n

def encodeString (bytes : ByteArray) : ByteArray :=
  encodeWord bytes.size ++ bytes

def encodeText (text : String) : ByteArray :=
  encodeString text.toUTF8

def takeBytes? (length : Nat) (b : ByteArray) : Option (ByteArray × ByteArray) :=
  if length ≤ b.size then some (Bytes.slice b 0 length, Bytes.drop b length) else none

def takeWord? (b : ByteArray) : Option (Nat × ByteArray) := do
  let (word, rest) ← takeBytes? 4 b
  pure (Bytes.toNatBE word, rest)

def takeString? (b : ByteArray) : Option (ByteArray × ByteArray) := do
  let (length, rest) ← takeWord? b
  takeBytes? length rest

/-- A string without zero bytes, each byte one character. -/
def takeText? (b : ByteArray) : Option (String × ByteArray) := do
  let (bytes, rest) ← takeString? b
  if bytes.toList.contains 0 then none else pure (String.ofList (Bytes.toChars bytes), rest)

/-- A string that is a number without a sign. -/
def takeNumber? (b : ByteArray) : Option (Nat × ByteArray) := do
  let (bytes, rest) ← takeString? b
  if 0x80 ≤ Bytes.at0 bytes 0 then none else pure (Bytes.toNatBE bytes, rest)

end VaultSync.Ssh.Wire
