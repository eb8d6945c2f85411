import VaultSync.Proofs.Encoding.Bech32
import VaultSync.Proofs.Keys.SecretLine
import VaultSync.Proofs.Text.Ascii

/-! The two halves of a parsed key. The recipient that others encrypt to is the public part of the
identity that the key decrypts with, although it is written down and read again in between. -/
namespace VaultSync

namespace Age

/-- The public part of an identity has the length of a key. -/
theorem Identity.size_recipient (identity : Identity) : identity.recipient.point.size = keyLength := by
  simp [recipient, Crypto.Curve25519.multiply, Bytes.ofNatLE, keyLength, ← ByteArray.size_data]

theorem Recipient.isPlainName_name : Bech32.IsPlainName name := by
  have hChars : name.toList = ['a', 'g', 'e'] := rfl
  refine ⟨?_, ?_, ?_, ?_⟩ <;> rw [hChars]
  · simp
  · decide
  · simp
  · simp

/-- A recipient is read back from its text. -/
theorem Recipient.parse_toText {recipient : Recipient} (h : recipient.point.size = keyLength) :
    parse recipient.toText = .ok recipient := by
  rw [parse, toText, readKey, Bech32.decode?_encode isPlainName_name]
  simp [Bech32.toBytes?_regroup, h]

theorem Identity.isPlainName_name : Bech32.IsPlainName name := by
  have hChars : name.toList = ['a', 'g', 'e', '-', 's', 'e', 'c', 'r', 'e', 't', '-', 'k', 'e', 'y', '-'] := rfl
  refine ⟨?_, ?_, ?_, ?_⟩ <;> rw [hChars]
  · simp
  · decide
  · simp
  · simp

/-- An identity is written in capitals. -/
theorem Identity.toList_toText (identity : Identity) :
    identity.toText.toList = (Bech32.encode name identity.secret).toList.map Text.upperAscii := by
  rw [toText, String.toList_ofList]

/-- An identity is read back from its text. -/
theorem Identity.parse_toText {identity : Identity} (h : identity.secret.size = keyLength) :
    parse identity.toText = .ok identity := by
  have hPlain : ∀ c ∈ (Bech32.encode name identity.secret).toList, ¬ ('A' ≤ c ∧ c ≤ 'Z') :=
    fun c hc => (Bech32.plain_of_mem_encode isPlainName_name hc).2
  rw [parse, toText, readKey, Bech32.decode?_upper hPlain, String.ofList_toList,
    Bech32.decode?_encode isPlainName_name]
  simp [Bech32.toBytes?_regroup, h]

/-- Identities whose recipients are written alike have one recipient. -/
theorem Identity.recipient_eq_of_toText {identity other : Identity}
    (h : identity.recipient.toText = other.recipient.toText) : identity.recipient = other.recipient := by
  have hParse := Recipient.parse_toText identity.size_recipient
  rw [h, Recipient.parse_toText other.size_recipient] at hParse
  exact (Except.ok.inj hParse).symm

end Age

namespace KeyPair

/-- A key encrypts to what its recipient text parses to. -/
theorem ageRecipient_eq_ok {key : KeyPair} {text : String} {recipient : Age.Recipient}
    (hText : key.recipientText? = some text) (hParse : Age.Recipient.parse text = .ok recipient) :
    key.ageRecipient = .ok recipient := by
  simp only [ageRecipient, hText, hParse]

theorem isBlank_of_visible {c : Char} (h : 33 ≤ c.toNat ∧ c.toNat ≤ 126) : Text.isBlank c = false := by
  simp [Text.isBlank]
  omega

/-- The text of an identity is the secret of every text that holds it behind rows without a secret. -/
theorem firstSecret_toText (identity : Age.Identity) (rows : List (List Char)) (front back ending : List Char)
    (hRows : ∀ row ∈ rows, '\n' ∉ row ∧ ¬ secretMark <+: Text.trimChars row)
    (hFront : ∀ c ∈ front, Text.isBlank c = true ∧ c ≠ '\n') (hBack : ∀ c ∈ back, Text.isBlank c = true ∧ c ≠ '\n')
    (hEnding : ending = [] ∨ ∃ more, ending = '\n' :: more) :
    FirstSecret (String.ofList (rows.flatMap (· ++ ['\n']) ++ (front ++ identity.toText.toList ++ back ++ ending)))
      identity.toText := by
  have hMark : secretMark <+: identity.toText.toList := by
    have hName : secretMark = Age.Identity.name.toList.map Text.upperAscii := by decide
    rw [hName, identity.toList_toText]
    exact (Bech32.name_prefix_encode _ _).map Text.upperAscii
  have hBlanks : ∀ c ∈ identity.toText.toList, Text.isBlank c = false := by
    intro c hc
    rw [identity.toList_toText] at hc
    obtain ⟨d, hd, rfl⟩ := List.mem_map.1 hc
    exact isBlank_of_visible (Bech32.visible_upperAscii
      (Bech32.plain_of_mem_encode Age.Identity.isPlainName_name hd).1)
  have hBreak : '\n' ∉ identity.toText.toList := fun hMem => absurd (hBlanks _ hMem) (by decide)
  rw [← String.ofList_toList (s := identity.toText), String.toList_ofList]
  exact firstSecret_around hRows hFront hBack hMark hBreak (Text.trimChars_of_forall hBlanks) hEnding

/-- The text of an identity is a key file for it. -/
theorem identityOf_toText {identity : Age.Identity} (h : identity.secret.size = Age.keyLength) :
    identityOf identity.toText.toUTF8 = .ok identity := by
  have hFirst : FirstSecret identity.toText identity.toText := by
    have hAlone := firstSecret_toText identity [] [] [] [] (by simp) (by simp) (by simp) (.inl rfl)
    simpa using hAlone
  rw [identityOf_of_firstSecret (fromUTF8?_toUTF8 _) hFirst, Age.Identity.parse_toText h]
  rfl

end KeyPair

namespace ParsedKey

variable (key : ParsedKey)

/-- Behind every key that was read there is an identity. -/
theorem exists_identity : ∃ identity, KeyPair.identityOf key.1.secret = .ok identity ∧
    key.1.id = KeyPair.fingerprint identity.recipient.toText ∧
    key.1.recipient = some identity.recipient.toText.toUTF8 := by
  obtain ⟨identity, hIdentity, hKey⟩ := KeyPair.ofFile_eq_ok key.ofFile_secret
  exact ⟨identity, hIdentity, congrArg KeyPair.id hKey, congrArg KeyPair.recipient hKey⟩

/-- The identity that a key decrypts with. -/
def identity : Age.Identity :=
  match h : KeyPair.identityOf key.1.secret with
  | .ok identity => identity
  | .error _ => absurd h (by obtain ⟨identity, hIdentity, -⟩ := key.exists_identity; simp [hIdentity])

/-- The secret of a key parses to its identity. -/
theorem identityOf_secret : KeyPair.identityOf key.1.secret = .ok key.identity := by
  unfold identity
  split
  · assumption
  · rename_i h
    obtain ⟨identity, hIdentity, -⟩ := key.exists_identity
    simp [hIdentity] at h

theorem id_eq : key.1.id = KeyPair.fingerprint key.identity.recipient.toText := by
  obtain ⟨identity, hIdentity, hId, -⟩ := key.exists_identity
  rw [identityOf_secret, Except.ok.injEq] at hIdentity
  rw [hId, hIdentity]

theorem recipient_eq : key.1.recipient = some key.identity.recipient.toText.toUTF8 := by
  obtain ⟨identity, hIdentity, -, hRecipient⟩ := key.exists_identity
  rw [identityOf_secret, Except.ok.injEq] at hIdentity
  rw [hRecipient, hIdentity]

/-- Two keys have one public part exactly when they have one recipient. -/
theorem recipient_eq_iff {key other : ParsedKey} : key.1.recipient = other.1.recipient ↔
    key.identity.recipient = other.identity.recipient := by
  rw [recipient_eq, recipient_eq, Option.some.injEq]
  constructor
  · intro h
    have hTexts := congrArg String.fromUTF8? h
    rw [fromUTF8?_toUTF8, fromUTF8?_toUTF8, Option.some.injEq] at hTexts
    exact Age.Identity.recipient_eq_of_toText hTexts
  · intro h
    rw [h]

/-- Keys with one recipient have one id. -/
theorem id_eq_of_recipient {key other : ParsedKey}
    (h : key.identity.recipient = other.identity.recipient) : key.1.id = other.1.id := by
  rw [id_eq, id_eq, h]

/-- What is encrypted to a key is encrypted to the recipient of its identity. -/
theorem ageRecipient_eq : key.1.ageRecipient = .ok key.identity.recipient := by
  have hText : key.1.recipientText? = some key.identity.recipient.toText := by
    rw [KeyPair.recipientText?, recipient_eq, Option.bind_some, fromUTF8?_toUTF8]
  exact KeyPair.ageRecipient_eq_ok hText (Age.Recipient.parse_toText key.identity.size_recipient)

/-- Every key that was read can be encrypted to. -/
theorem mapM_ageRecipient (keys : List ParsedKey) :
    (keys.map (·.1)).mapM KeyPair.ageRecipient = .ok (keys.map (·.identity.recipient)) := by
  induction keys with
  | nil => rfl
  | cons key keys ih =>
      rw [List.map_cons, List.mapM_cons, ageRecipient_eq, ih]
      rfl

/-- Encryption to parsed keys only fails when there are none. -/
theorem encrypt_eq (plain : ByteArray) {keys : List ParsedKey} (h : keys ≠ []) (entropy : Entropy) :
    KeyPair.encrypt plain (keys.map (·.1)) entropy =
      (.ok (Age.encrypt plain (keys.map (·.identity.recipient)) entropy).1,
        (Age.encrypt plain (keys.map (·.identity.recipient)) entropy).2) := by
  have hKeys : (keys.map (·.1)).isEmpty ≠ true := by rwa [List.isEmpty_map, Ne, List.isEmpty_iff]
  rw [KeyPair.encrypt, mapM_ageRecipient, if_neg hKeys]

theorem decrypt_eq (file : ByteArray) : key.1.decrypt file =
    (Age.decrypt file key.identity).mapError fun fault => .decryptionFailed fault.message := by
  simp only [KeyPair.decrypt, identityOf_secret, bind, Except.bind]
  cases Age.decrypt file key.identity <;> rfl

/-- The key whose file is only the text of an identity. -/
def ofIdentity (identity : Age.Identity) (h : identity.secret.size = Age.keyLength) : ParsedKey :=
  ⟨⟨KeyPair.fingerprint identity.recipient.toText, identity.toText.toUTF8,
    some identity.recipient.toText.toUTF8⟩, identity.toText.toUTF8, by
      rw [KeyPair.ofFile, KeyPair.identityOf_toText h]
      rfl⟩

theorem identity_ofIdentity (identity : Age.Identity) (h : identity.secret.size = Age.keyLength) :
    (ofIdentity identity h).identity = identity := by
  have hSecret : (ofIdentity identity h).1.secret = identity.toText.toUTF8 := by simp only [ofIdentity]
  have hIdentity := (ofIdentity identity h).identityOf_secret
  rw [hSecret, KeyPair.identityOf_toText h] at hIdentity
  exact (Except.ok.inj hIdentity).symm

end ParsedKey

end VaultSync
