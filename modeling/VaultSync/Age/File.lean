import VaultSync.Age.Key
import VaultSync.Age.Payload
import VaultSync.Entropy
/-!
Whole age files. A file key seals the payload; each recipient finds the file key sealed in a stanza of
the header, under a secret that only its identity shares with the sender.
-/

namespace VaultSync.Age

open VaultSync.Crypto

def fileKeyLength : Nat := 16

/-- Why a file does not open. -/
inductive DecryptFault
  /-- The file ends before its header and nonce do. -/
  | incomplete
  | armor (fault : Armor.Fault)
  | unknownFormat
  /-- The header breaks a rule that is checked before any identity is tried. -/
  | invalidFile
  /-- The stanza of an identity is malformed. -/
  | invalidStanza
  | noMatchingKey
  | wrongMac
  | payload (fault : Payload.Fault)
deriving DecidableEq, Repr

namespace DecryptFault

/-- What stands before faults that show before an identity is tried. -/
def entryText : String := "Invalid encrypted entry: "

def message : DecryptFault → String
  | incomplete => entryText ++ "failed to fill whole buffer"
  | armor fault => entryText ++ fault.message
  | unknownFormat => entryText ++ "Unknown age format.\nHave you tried upgrading to the latest version?"
  | invalidFile => entryText ++ "Header is invalid"
  | invalidStanza => "Header is invalid"
  | noMatchingKey => "No matching keys found"
  | wrongMac => "Header MAC is invalid"
  | payload fault => "Read decrypted data failed: " ++ fault.message

end DecryptFault

/-! ### Stanzas for keys on the curve -/

/-- The tag of stanzas for keys on the curve. -/
def curveTag : List Char := "X25519".toList

/-- The tag of stanzas for a passphrase, which must stand alone. -/
def passphraseTag : List Char := "scrypt".toList

/-- The purpose of the key that seals a file key. -/
def curveInfo : ByteArray := "age-encryption.org/v1/X25519".toUTF8

/-- The key that seals the file key between a sender's share and a recipient. -/
def wrapKey (shared share recipient : ByteArray) : ByteArray :=
  Sha256.deriveKey shared (share ++ recipient) curveInfo

/-- The nonce of sealed file keys: each key seals once. -/
def wrapNonce : ByteArray := Bytes.replicate 12 0

/-- Seals a file key for a recipient, with a secret that is used once. -/
def wrap (fileKey secret : ByteArray) (recipient : Recipient) : Stanza :=
  let share := Curve25519.multiply secret Curve25519.base
  let shared := Curve25519.multiply secret recipient.point
  ⟨curveTag, [Base64.encode share],
    Sealed.encrypt (wrapKey shared share recipient.point) wrapNonce fileKey⟩

/-- What an identity makes of a stanza: nothing if it is for another one. -/
def unwrap (identity : Identity) (stanza : Stanza) : Option (Except DecryptFault ByteArray) :=
  if stanza.tag ≠ curveTag then none
  else
    match stanza.args with
    | [arg] =>
      match Base64.decode? arg with
      | none => some (.error .invalidStanza)
      | some share =>
        if share.size ≠ keyLength ∨ stanza.body.size ≠ fileKeyLength + 16 then
          some (.error .invalidStanza)
        else
          let shared := Curve25519.multiply identity.secret share
          if shared = Bytes.replicate keyLength 0 then some (.error .invalidStanza)
          else
            let key := wrapKey shared share identity.recipient.point
            (Sealed.decrypt? key wrapNonce stanza.body).map .ok
    | _ => some (.error .invalidStanza)

/-! ### Files -/

/-- The authentication code of a header under a file key. -/
def macOf (fileKey : ByteArray) (covered : List Char) : ByteArray :=
  Sha256.hmac (Sha256.deriveKey fileKey ByteArray.empty "header".toUTF8) (Bytes.ofChars covered)

def payloadKey (fileKey nonce : ByteArray) : ByteArray :=
  Sha256.deriveKey fileKey nonce "payload".toUTF8

def nonceLength : Nat := 16

def encrypt (plain : ByteArray) (recipients : List Recipient) (entropy : Entropy) :
    ByteArray × Entropy :=
  let (fileKey, entropy) := entropy.draw fileKeyLength
  let (nonce, entropy) := entropy.draw nonceLength
  let (stanzas, entropy) := recipients.foldl (fun (acc : List Stanza × Entropy) r =>
    let (secret, entropy) := acc.2.draw keyLength
    (acc.1 ++ [wrap fileKey secret r], entropy)) ([], entropy)
  let header : Header := ⟨stanzas, macOf fileKey (encodeStanzas stanzas)⟩
  let file := Bytes.ofChars header.encode ++ nonce ++ Payload.encrypt (payloadKey fileKey nonce) plain
  ((Armor.encode file).toUTF8, entropy)

/-- A file that is read up to its payload. -/
structure Opened where
  header : Header
  /-- The part of the header that its code covers, as it was read. -/
  covered : List Char
  nonce : ByteArray
  payload : Armor.Source

/-- Reads a file up to its payload. A passphrase stanza must be the only one. -/
def open_ (file : ByteArray) : Except DecryptFault Opened :=
  let source := Armor.read file
  let early : DecryptFault := match source.fault with
    | some fault => .armor fault
    | none => .incomplete
  let cs := Bytes.toChars source.bytes
  match readHeader cs with
  | .error .incomplete => .error early
  | .error .malformed => .error .invalidFile
  | .ok .unknown => .error .unknownFormat
  | .ok (.header header rest) =>
    if rest.length < nonceLength then .error early
    else
      let passphrase := header.stanzas.any fun s => s.tag = passphraseTag
      if passphrase ∧ header.stanzas.length ≠ 1 then .error .invalidFile
      else
        let start := cs.length - rest.length
        .ok
          { header
            covered := cs.take (start - (macColumns + 2))
            nonce := Bytes.slice source.bytes start nonceLength
            payload := ⟨Bytes.drop source.bytes (start + nonceLength), source.fault⟩ }

/-- Decrypts with an identity. The first stanza that says anything to it decides. -/
def decrypt (file : ByteArray) (identity : Identity) : Except DecryptFault ByteArray := do
  let opened ← open_ file
  match opened.header.stanzas.findSome? (unwrap identity) with
  | none => .error .noMatchingKey
  | some (.error fault) => .error fault
  | some (.ok fileKey) =>
    if macOf fileKey opened.covered ≠ opened.header.mac then .error .wrongMac
    else
      match Payload.decrypt (payloadKey fileKey opened.nonce) opened.payload with
      | .ok plain => .ok plain
      | .error fault => .error (.payload fault)

end VaultSync.Age
