import VaultSync.Bytes
/-!
Values as tags, lengths and contents. Only the short and the definite long form of lengths are read.
-/

namespace VaultSync.Der

/-- A value: its tag, and the bytes of its content. -/
structure Element where
  tag : UInt8
  content : ByteArray
deriving DecidableEq

namespace Element

def integerTag : UInt8 := 0x02

def bytesTag : UInt8 := 0x04

/-- The tag of names that are paths of numbers. -/
def nameTag : UInt8 := 0x06

def sequenceTag : UInt8 := 0x30

def content? (tag : UInt8) (element : Element) : Option ByteArray :=
  if element.tag = tag then some element.content else none

/-- The value of a whole number that is not negative. -/
def number? (element : Element) : Option Nat := do
  let content ← element.content? integerTag
  if content.isEmpty ∨ 0x80 ≤ Bytes.at0 content 0 then none else pure (Bytes.toNatBE content)

end Element

def takeLength? (b : ByteArray) : Option (Nat × ByteArray) :=
  let first := (Bytes.at0 b 0).toNat
  let more := first - 128
  if b.isEmpty then none
  else if first < 128 then some (first, Bytes.drop b 1)
  else if 1 ≤ more ∧ more ≤ 4 ∧ more < b.size then
    some (Bytes.toNatBE (Bytes.slice b 1 more), Bytes.drop b (1 + more))
  else none

def take? (b : ByteArray) : Option (Element × ByteArray) := do
  let (length, rest) ← takeLength? (Bytes.drop b 1)
  if length ≤ rest.size then
    pure (⟨Bytes.at0 b 0, Bytes.slice rest 0 length⟩, Bytes.drop rest length)
  else none

def elements? (b : ByteArray) : Option (List Element) :=
  go b.size b
where
  go (fuel : Nat) (b : ByteArray) : Option (List Element) :=
    match fuel with
    | 0 => if b.isEmpty then some [] else none
    | fuel + 1 =>
      if b.isEmpty then some []
      else do
        let (element, rest) ← take? b
        pure (element :: (← go fuel rest))

def Element.members? (element : Element) : Option (List Element) := do
  elements? (← element.content? sequenceTag)

/-- The members of the sequence that bytes start with. -/
def sequence? (b : ByteArray) : Option (List Element) := do
  let (element, _) ← take? b
  element.members?

end VaultSync.Der
