import VaultSync.Crypto.Md5
import VaultSync.Crypto.Sha256
import VaultSync.Encoding.Der
import VaultSync.Ssh.Envelope
import VaultSync.Text.Hex
/-!
Private keys in the older forms: a labelled block of base 64 around a sequence of values, which is
protected as a whole, by two header lines or by a description in the clear.
-/

namespace VaultSync.Ssh

/-- A labelled block: its header lines, and the bytes in it. -/
structure Pem where
  label : String
  headers : List String
  body : ByteArray

namespace Pem

def dashes : String := "-----"

/-- The label of a line that begins a block. -/
def beginLabel? (line : List Char) : Option String :=
  let front := (dashes ++ "BEGIN ").toList
  let back := dashes.toList
  if front.isPrefixOf line ∧ back.isSuffixOf line ∧ front.length + back.length ≤ line.length then
    some (String.ofList ((line.drop front.length).dropLast.dropLast.dropLast.dropLast.dropLast))
  else none

/-- The first block whose label a private key has. -/
def labelled? (accepts : String → Bool) : List (List Char) → Option (String × List (List Char))
  | [] => none
  | line :: rest =>
    match beginLabel? line with
    | some label => if accepts label then some (label, rest) else labelled? accepts rest
    | none => labelled? accepts rest

/-- The label of a key that a header may protect. -/
def plainLabels : List String := ["RSA PRIVATE KEY", "EC PRIVATE KEY", "PRIVATE KEY"]

/-- The label of a key behind a description of its protection. -/
def describedLabel : String := "ENCRYPTED PRIVATE KEY"

/-- Reads a block. Header lines end with an empty line, and no line behind them is empty. -/
def ofText? (text : List Char) : Option Pem := do
  let lines := (Text.splitChars '\n' text).map (Text.dropEndWhile fun c => c ≤ ' ')
  let (label, rest) ← labelled? (fun l => l = describedLabel ∨ l ∈ plainLabels) lines
  let endLine := (dashes ++ "END " ++ label ++ dashes).toList
  let inside := rest.takeWhile (· ≠ endLine)
  if inside.length = rest.length then none
  else
    let headers := if inside.any (·.contains ':') then inside.takeWhile (· ≠ []) else []
    let lines := inside.drop headers.length
    let lines := if lines.head? = some [] then lines.drop 1 else lines
    if lines.contains [] then none
    else
      let body ← Base64.decodePadded? (lines.flatten.filter fun c => !c.isWhitespace)
      pure ⟨label, headers.map String.ofList, body⟩

/-! ### Protection -/

/-- The longest passphrase that is taken in, in bytes. -/
def maxPassphrase : Nat := 1024

/-- A key by digests of the passphrase and a salt, each over the one before as well. -/
def digestKey (passphrase salt : ByteArray) (length : Nat) : ByteArray :=
  let digests := (List.range ((length + 15) / 16)).foldl (fun (out, last) _ =>
    let digest := Crypto.Md5.hash (last ++ passphrase ++ salt)
    (out ++ digest, digest)) ((ByteArray.empty, ByteArray.empty) : ByteArray × ByteArray)
  Bytes.slice digests.1 0 length

/-- A message without its padding, whose bytes all give its length. -/
def unpad? (message : ByteArray) : Option ByteArray :=
  let count := (Bytes.at0 message (message.size - 1)).toNat
  let padding := Bytes.drop message (message.size - count)
  if 1 ≤ count ∧ count ≤ Crypto.Aes.blockSize ∧ count ≤ message.size ∧
      padding.toList.all (·.toNat = count) then
    some (Bytes.slice message 0 (message.size - count))
  else none

def decrypt? (key initial message : ByteArray) : Option ByteArray :=
  if message.isEmpty ∨ message.size % Crypto.Aes.blockSize ≠ 0 then none
  else unpad? (Crypto.Aes.decryptChained key initial message)

/-- The ciphers of headers, with the lengths of their keys. -/
def headerCiphers : List (String × Nat) :=
  [("AES-128-CBC", 16), ("AES-192-CBC", 24), ("AES-256-CBC", 32)]

/-- The cipher and the first block that headers speak of. -/
def headerCipher? (headers : List String) : Option (Nat × ByteArray) := do
  match headers with
  | "Proc-Type: 4,ENCRYPTED" :: info :: _ =>
    let front := "DEK-Info: ".toList
    if front.isPrefixOf info.toList then
      match Text.splitChars ',' (info.toList.drop front.length) with
      | [name, digits] =>
        let initial ← Text.bytesOfHex? (String.ofList digits)
        if initial.size = Crypto.Aes.blockSize then
          pure (← headerCiphers.lookup (String.ofList name), initial)
        else none
      | _ => none
    else none
  | _ => none

/-- A derived key of at most 32 bytes: codes of codes under the passphrase, mixed into one. -/
def iteratedKey (passphrase salt : ByteArray) (rounds length : Nat) : ByteArray :=
  let first := Crypto.Sha256.hmac passphrase (salt ++ Bytes.ofNatBE 4 1)
  let mixed := (List.range (rounds - 1)).foldl (fun (out, last) _ =>
    let next := Crypto.Sha256.hmac passphrase last
    (Bytes.xor out next, next)) ((first, first) : ByteArray × ByteArray)
  Bytes.slice mixed.1 0 length

/-- The name of the scheme with a derived key and chained blocks. -/
def schemeName : ByteArray := ⟨#[0x2a, 0x86, 0x48, 0x86, 0xf7, 0x0d, 0x01, 0x05, 0x0d]⟩

def derivationName : ByteArray := ⟨#[0x2a, 0x86, 0x48, 0x86, 0xf7, 0x0d, 0x01, 0x05, 0x0c]⟩

def codeName : ByteArray := ⟨#[0x2a, 0x86, 0x48, 0x86, 0xf7, 0x0d, 0x02, 0x09]⟩

/-- The names of the ciphers, with the lengths of their keys. -/
def cipherNames : List (ByteArray × Nat) :=
  [(2, 16), (22, 24), (42, 32)].map fun ((last, size) : UInt8 × Nat) =>
    (⟨#[0x60, 0x86, 0x48, 0x01, 0x65, 0x03, 0x04, 0x01, last]⟩, size)

/-- How a key is protected by a description in the clear. -/
structure Description where
  salt : ByteArray
  rounds : Nat
  keySize : Nat
  initial : ByteArray
  message : ByteArray

open Der in
def Description.ofBytes? (b : ByteArray) : Option Description := do
  let [scheme, message] ← sequence? b | none
  let [schemeId, parameters] ← scheme.members? | none
  let [derivation, cipher] ← parameters.members? | none
  let [derivationId, options] ← derivation.members? | none
  let [cipherId, initial] ← cipher.members? | none
  let salt :: rounds :: more ← options.members? | none
  let code ← more.getLast?
  let codeId :: _ ← code.members? | none
  let name := Element.content? Element.nameTag
  if (← name schemeId) = schemeName ∧ (← name derivationId) = derivationName ∧
      (← name codeId) = codeName then
    pure ⟨← salt.content? Element.bytesTag, ← rounds.number?, ← cipherNames.lookup (← name cipherId),
      ← initial.content? Element.bytesTag, ← message.content? Element.bytesTag⟩
  else none

/-! ### Keys -/

open Der in
/-- Whether bytes are a private key of the form that a label promises. -/
def isPrivate (label : String) (b : ByteArray) : Bool :=
  match sequence? b with
  | none => false
  | some members =>
    let numbers := members.filterMap Element.number?
    if label = "RSA PRIVATE KEY" then
      numbers.length = 9 && members.length = 9 && PublicKey.isLongModulus (numbers.getD 1 0)
    else if label = "EC PRIVATE KEY" then
      members.head?.bind Element.number? = some 1 &&
        ((members[1]?).bind (Element.content? Element.bytesTag)).isSome
    else
      numbers.length = 1 && ((members[1]?).bind Element.members?).isSome &&
        ((members[2]?).bind (Element.content? Element.bytesTag)).isSome

/-- Whether what is behind a protection is a private key. -/
def check (label : String) (fault : KeyFault) : Option ByteArray → Except KeyFault Unit
  | some b => if isPrivate label b then .ok () else .error fault
  | none => .error fault

/-- Opens a block with a passphrase. One that is not protected opens with any. -/
def unlock (pem : Pem) (passphrase : ByteArray) : Except KeyFault Unit :=
  let passphrase := Bytes.slice passphrase 0 maxPassphrase
  if pem.label = describedLabel then
    match Description.ofBytes? pem.body with
    | none => .error .malformed
    | some d =>
      check "PRIVATE KEY" .wrongPassphrase
        (decrypt? (iteratedKey passphrase d.salt d.rounds d.keySize) d.initial d.message)
  else if pem.headers = [] then check pem.label .malformed (some pem.body)
  else
    match headerCipher? pem.headers with
    | none => .error .malformed
    | some (keySize, initial) =>
      let key := digestKey passphrase (Bytes.slice initial 0 8) keySize
      check pem.label .wrongPassphrase (decrypt? key initial pem.body)

end Pem

end VaultSync.Ssh
