import VaultSync.Age.Armor
import VaultSync.Crypto.Sealed
/-!
The payload of an age file: chunks that are sealed one by one, each under its number, the last one
marked as such.
-/

namespace VaultSync.Age.Payload

/-- The length of a full chunk before it is sealed. -/
def chunkSize : Nat := 65536

/-- The length of a full chunk after it is sealed. -/
def sealedSize : Nat := chunkSize + 16

/-- What goes wrong while a payload is read. -/
inductive Fault
  | truncated
  | afterLast
  | decryption
  | armor (fault : Armor.Fault)
deriving DecidableEq, Repr

def Fault.message : Fault → String
  | truncated => "age file is truncated"
  | afterLast => "last chunk has been processed"
  | decryption => "decryption error"
  | armor fault => fault.message

def nonce (index : Nat) (last : Bool) : ByteArray :=
  (Bytes.ofNatBE 11 index).push (if last then 1 else 0)

def encryptFrom (key : ByteArray) (fuel index : Nat) (plain : ByteArray) : ByteArray :=
  match fuel with
  | 0 => ByteArray.empty
  | fuel + 1 =>
    if plain.size ≤ chunkSize then Crypto.Sealed.encrypt key (nonce index true) plain
    else
      Crypto.Sealed.encrypt key (nonce index false) (Bytes.slice plain 0 chunkSize) ++
        encryptFrom key fuel (index + 1) (Bytes.drop plain chunkSize)

def encrypt (key plain : ByteArray) : ByteArray :=
  encryptFrom key (plain.size / chunkSize + 1) 0 plain

/-- Opens a payload from a chunk on. `done` says that the last chunk was seen; a full chunk may be the
last one. -/
def decryptFrom (key : ByteArray) (armorFault : Option Armor.Fault) (fuel index : Nat) (done : Bool)
    (bytes : ByteArray) : Except Fault ByteArray :=
  match fuel with
  | 0 => .error .truncated
  | fuel + 1 =>
    if bytes.size < sealedSize then
      match armorFault with
      | some fault => .error (.armor fault)
      | none =>
        if bytes.isEmpty then (if done then .ok ByteArray.empty else .error .truncated)
        else if done then .error .afterLast
        else
          match Crypto.Sealed.decrypt? key (nonce index true) bytes with
          | some plain => .ok plain
          | none => .error .decryption
    else if done then .error .afterLast
    else
      let chunk := Bytes.slice bytes 0 sealedSize
      let rest := Bytes.drop bytes sealedSize
      match Crypto.Sealed.decrypt? key (nonce index false) chunk with
      | some plain => do
        let more ← decryptFrom key armorFault fuel (index + 1) false rest
        pure (plain ++ more)
      | none =>
        match Crypto.Sealed.decrypt? key (nonce index true) chunk with
        | some plain => do
          let more ← decryptFrom key armorFault fuel (index + 1) true rest
          pure (plain ++ more)
        | none => .error .decryption

def decrypt (key : ByteArray) (source : Armor.Source) : Except Fault ByteArray :=
  decryptFrom key source.fault (source.bytes.size / sealedSize + 2) 0 false source.bytes

end VaultSync.Age.Payload
