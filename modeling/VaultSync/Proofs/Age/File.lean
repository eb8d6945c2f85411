import VaultSync.Proofs.Age.Armor
import VaultSync.Proofs.Age.Header
import VaultSync.Proofs.Age.Payload
import VaultSync.Proofs.Keys.Recipient

/-! Files open again. Whatever is encrypted, an identity that finds the file key in a stanza reads the text
back; it finds the file key when it shares a secret with the sender. What a stanza says to a stranger
depends on the authentication code of the cipher, and nothing is said about that. -/
namespace VaultSync

namespace Entropy

theorem size_blocks (entropy : Entropy) (n : Nat) : (entropy.blocks n).size = 32 * n := by
  induction n with
  | zero => rfl
  | succ n ih =>
      rw [blocks, ByteArray.size_append, ih, Crypto.Sha256.size_hash]
      omega

/-- A draw gives as many bytes as were asked for. -/
theorem size_draw (entropy : Entropy) (length : Nat) : (entropy.draw length).1.size = length := by
  refine Bytes.size_slice ?_
  rw [size_blocks]
  omega

/-- The secret that is drawn after a number of other draws. -/
def secretAfter (entropy : Entropy) (draws : Nat) : ByteArray :=
  (Entropy.draw ⟨entropy.seed, entropy.drawn + draws⟩ Age.keyLength).1

theorem secretAfter_draw (entropy : Entropy) (length draws : Nat) :
    (entropy.draw length).2.secretAfter draws = entropy.secretAfter (draws + 1) := by
  rw [secretAfter, secretAfter, Nat.add_comm draws 1, ← Nat.add_assoc]
  rfl

end Entropy

namespace Age

open Crypto

/-! ### Stanzas -/

theorem size_multiply (secret point : ByteArray) : (Curve25519.multiply secret point).size = keyLength := by
  simp [Curve25519.multiply, Bytes.ofNatLE, keyLength, ← ByteArray.size_data]

theorem wellFormed_wrap (fileKey secret : ByteArray) (recipient : Recipient) :
    (wrap fileKey secret recipient).WellFormed where
  tag := ⟨by simp only [wrap]; decide, List.all_eq_true.1 (by simp only [wrap]; decide)⟩
  args arg hArg := by
    obtain rfl := List.mem_singleton.1 hArg
    refine isWord_encode ?_
    rw [size_multiply]
    decide

theorem tag_wrap (fileKey secret : ByteArray) (recipient : Recipient) :
    (wrap fileKey secret recipient).tag ≠ passphraseTag := by
  simp only [wrap]
  decide

variable {identity : Identity} {fileKey secret : ByteArray}

/-- A stanza opens when both sides share a secret that is not zero and the key in its body is sealed with it. -/
theorem unwrap_of_shared {share shared body : ByteArray} (hShare : share.size = keyLength)
    (hBody : body.size = fileKeyLength + 16) (hShared : Curve25519.multiply identity.secret share = shared)
    (hNonzero : shared ≠ Bytes.replicate keyLength 0)
    (hOpen : Sealed.decrypt? (wrapKey shared share identity.recipient.point) wrapNonce body = some fileKey) :
    unwrap identity ⟨curveTag, [Base64.encode share], body⟩ = some (.ok fileKey) := by
  -- Share and body are variables here: those of `wrap` would be computed while the steps are checked.
  have hSizes : ¬ (share.size ≠ keyLength ∨ body.size ≠ fileKeyLength + 16) := by simp [hShare, hBody]
  simp only [unwrap, ne_eq, not_true_eq_false, if_false, Base64.decode?_encode]
  rw [if_neg hSizes, hShared, if_neg hNonzero, hOpen, Option.map_some]

/-- A secret that is used once leads to one that a sender shares with an identity. -/
structure Identity.Agrees (identity : Identity) (secret : ByteArray) : Prop where
  shared : Curve25519.multiply identity.secret (Curve25519.multiply secret Curve25519.base) =
    Curve25519.multiply secret identity.recipient.point
  nonzero : Curve25519.multiply secret identity.recipient.point ≠ Bytes.replicate keyLength 0

/-- An identity that shares a secret with the sender finds the file key. -/
theorem unwrap_wrap (hKey : fileKey.size = fileKeyLength) (h : identity.Agrees secret) :
    unwrap identity (wrap fileKey secret identity.recipient) = some (.ok fileKey) :=
  unwrap_of_shared (size_multiply _ _) (by rw [Sealed.size_encrypt, hKey]) h.shared h.nonzero
    (Sealed.decrypt?_encrypt _ _ _)

/-- The stanzas for recipients, each with a secret of its own. -/
def stanzasFor (fileKey : ByteArray) : List Recipient → Entropy → List Stanza
  | [], _ => []
  | recipient :: recipients, entropy =>
    wrap fileKey (entropy.draw keyLength).1 recipient ::
      stanzasFor fileKey recipients (entropy.draw keyLength).2

/-- Every stanza of a header wraps the file key for one of the recipients. -/
theorem exists_wrap_of_mem {recipients : List Recipient} {entropy : Entropy} {stanza : Stanza}
    (h : stanza ∈ stanzasFor fileKey recipients entropy) :
    ∃ secret recipient, stanza = wrap fileKey secret recipient := by
  induction recipients generalizing entropy with
  | nil => cases h
  | cons recipient recipients ih =>
      rcases List.mem_cons.1 h with rfl | h
      · exact ⟨_, _, rfl⟩
      · exact ih h

/-- The first stanza that an identity opens gives the file key, since the ones for others do not open. -/
theorem findSome?_unwrap {recipients : List Recipient} {entropy : Entropy}
    (hMem : identity.recipient ∈ recipients) (hKey : fileKey.size = fileKeyLength)
    (hOwn : ∀ i < recipients.length, identity.Agrees (entropy.secretAfter i))
    (hOthers : ∀ i < recipients.length, ∀ recipient ∈ recipients, recipient ≠ identity.recipient →
      unwrap identity (wrap fileKey (entropy.secretAfter i) recipient) = none) :
    (stanzasFor fileKey recipients entropy).findSome? (unwrap identity) = some (.ok fileKey) := by
  induction recipients generalizing entropy with
  | nil => cases hMem
  | cons recipient recipients ih =>
      have hFirst : (entropy.draw keyLength).1 = entropy.secretAfter 0 := rfl
      rw [stanzasFor, List.findSome?_cons, hFirst]
      by_cases hRecipient : recipient = identity.recipient
      · rw [hRecipient, unwrap_wrap hKey (hOwn 0 (Nat.zero_lt_succ _))]
      · have hRest := (List.mem_cons.1 hMem).resolve_left fun h => hRecipient h.symm
        rw [hOthers 0 (Nat.zero_lt_succ _) recipient List.mem_cons_self hRecipient]
        refine ih hRest (fun i hi => ?_) fun i hi other hOther hNe => ?_
        · rw [Entropy.secretAfter_draw]
          exact hOwn (i + 1) (Nat.succ_lt_succ hi)
        · rw [Entropy.secretAfter_draw]
          exact hOthers (i + 1) (Nat.succ_lt_succ hi) other (List.mem_cons_of_mem _ hOther) hNe

/-! ### Files -/

/-- A file with a header of stanzas for keys on the curve is opened up to its payload. -/
theorem open_encode {header : Header} (h : header.WellFormed)
    (hTags : ∀ stanza ∈ header.stanzas, stanza.tag ≠ passphraseTag) {nonce : ByteArray}
    (hNonce : nonce.size = nonceLength) (payload : ByteArray) :
    open_ (Armor.encode (Bytes.ofChars header.encode ++ nonce ++ payload)).toUTF8 =
      .ok ⟨header, encodeStanzas header.stanzas, nonce, ⟨payload, none⟩⟩ := by
  let rest := Bytes.toChars (nonce ++ payload)
  have hSize : (Bytes.ofChars header.encode).size = header.encode.length := by
    rw [← Bytes.length_toList, Bytes.toList_ofChars, Bytes.codes, List.length_map]
  have hRest : rest.length = nonce.size + payload.size := by
    rw [Bytes.length_toChars, ByteArray.size_append]
  have hLong : ¬ rest.length < nonceLength := by omega
  have hChars : Bytes.toChars (Bytes.ofChars header.encode ++ nonce ++ payload) = header.encode ++ rest := by
    rw [ByteArray.append_assoc, Bytes.toChars_append, Bytes.toChars_ofChars h.ascii_encode]
  have hStart : (header.encode ++ rest).length - rest.length = (Bytes.ofChars header.encode).size := by
    rw [List.length_append, Nat.add_sub_cancel, hSize]
  -- the code of the header covers its text up to the line that holds the code
  have hCovered : (header.encode ++ rest).take ((Bytes.ofChars header.encode).size - (macColumns + 2)) =
      encodeStanzas header.stanzas := by
    rw [hSize, h.length_encode, Nat.add_sub_cancel, Header.encode, List.append_assoc, List.append_assoc,
      List.append_assoc, List.take_left]
  have hPassphrase : (header.stanzas.any fun s => s.tag = passphraseTag) = false := by
    rw [List.any_eq_false]
    intro stanza hStanza
    simpa using hTags stanza hStanza
  have hNonceBytes : Bytes.slice (Bytes.ofChars header.encode ++ nonce ++ payload)
      (Bytes.ofChars header.encode).size nonceLength = nonce := by
    rw [← hNonce, Bytes.slice_append_middle]
  have hPayload : Bytes.drop (Bytes.ofChars header.encode ++ nonce ++ payload)
      ((Bytes.ofChars header.encode).size + nonceLength) = payload := by
    rw [← hNonce, ← ByteArray.size_append, Bytes.drop_append]
  rw [open_]
  simp only [Armor.read_encode, hChars, readHeader_encode h, hLong, if_false, hPassphrase, Bool.false_eq_true,
    false_and, hStart, hCovered, hNonceBytes, hPayload]

/-- What is encrypted, with the draws spelt out. -/
theorem encrypt_eq (plain : ByteArray) (recipients : List Recipient) (entropy : Entropy) :
    ∃ fileKey nonce stanzas, fileKey = (entropy.draw fileKeyLength).1 ∧ nonce.size = nonceLength ∧
      stanzas = stanzasFor fileKey recipients ((entropy.draw fileKeyLength).2.draw nonceLength).2 ∧
      (encrypt plain recipients entropy).1 = (Armor.encode
        (Bytes.ofChars (Header.encode ⟨stanzas, macOf fileKey (encodeStanzas stanzas)⟩) ++ nonce ++
          Payload.encrypt (payloadKey fileKey nonce) plain)).toUTF8 := by
  have hFold (fileKey : ByteArray) (stanzas : List Stanza) (entropy : Entropy) :
      (recipients.foldl (fun (acc : List Stanza × Entropy) r =>
        (acc.1 ++ [wrap fileKey (acc.2.draw keyLength).1 r], (acc.2.draw keyLength).2)) (stanzas, entropy)).1 =
      stanzas ++ stanzasFor fileKey recipients entropy := by
    induction recipients generalizing stanzas entropy with
    | nil => exact (List.append_nil _).symm
    | cons recipient recipients ih =>
        rw [List.foldl_cons, ih, List.append_assoc]
        rfl
  refine ⟨_, ((entropy.draw fileKeyLength).2.draw nonceLength).1, _, rfl, Entropy.size_draw _ _, rfl, ?_⟩
  rw [encrypt]
  simp only [hFold, List.nil_append]

/-- An identity that finds the file key in a stanza reads the text. -/
theorem decrypt_encrypt_of_find {plain : ByteArray} (hPlain : Payload.EndsShort plain)
    {recipients : List Recipient} (hRecipients : recipients ≠ []) (entropy : Entropy)
    (hFind : (stanzasFor (entropy.draw fileKeyLength).1 recipients
      ((entropy.draw fileKeyLength).2.draw nonceLength).2).findSome? (unwrap identity) =
        some (.ok (entropy.draw fileKeyLength).1)) :
    decrypt (encrypt plain recipients entropy).1 identity = .ok plain := by
  obtain ⟨fileKey, nonce, stanzas, hKey, hNonce, hStanzas, hEncrypt⟩ := encrypt_eq plain recipients entropy
  rw [← hKey, ← hStanzas] at hFind
  -- every stanza wraps the key for some recipient, which is all that reading the header asks of it
  have hWrapped : ∀ stanza ∈ stanzas, ∃ secret recipient, stanza = wrap fileKey secret recipient :=
    fun stanza hStanza => exists_wrap_of_mem (hStanzas ▸ hStanza)
  have hHeader : Header.WellFormed ⟨stanzas, macOf fileKey (encodeStanzas stanzas)⟩ :=
    { nonempty := by
        rw [hStanzas]
        cases recipients with
        | nil => exact absurd rfl hRecipients
        | cons recipient recipients => exact List.cons_ne_nil _ _
      stanzas := fun stanza hStanza => by
        obtain ⟨secret, recipient, rfl⟩ := hWrapped stanza hStanza
        exact wellFormed_wrap fileKey secret recipient
      mac := Sha256.size_hash _ }
  have hTags : ∀ stanza ∈ stanzas, stanza.tag ≠ passphraseTag := fun stanza hStanza => by
    obtain ⟨secret, recipient, rfl⟩ := hWrapped stanza hStanza
    exact tag_wrap fileKey secret recipient
  rw [hEncrypt, decrypt, open_encode hHeader hTags hNonce]
  simp only [bind, Except.bind, hFind, ne_eq, not_true_eq_false, if_false, Payload.decrypt_encrypt _ hPlain]

/-- What is encrypted to an identity opens with it, as long as the curve gives both sides one secret and
no stanza for another recipient looks like one for the identity. Secrets are drawn after the file key and
the nonce. The last chunk of the text is not full; see `Payload.EndsShort`. -/
theorem decrypt_encrypt {plain : ByteArray} (hPlain : Payload.EndsShort plain) {recipients : List Recipient}
    (hMem : identity.recipient ∈ recipients) {entropy : Entropy}
    (hOwn : ∀ i < recipients.length, identity.Agrees (entropy.secretAfter (i + 2)))
    (hOthers : ∀ i < recipients.length, ∀ recipient ∈ recipients, recipient ≠ identity.recipient →
      unwrap identity (wrap (entropy.draw fileKeyLength).1 (entropy.secretAfter (i + 2)) recipient) = none) :
    decrypt (encrypt plain recipients entropy).1 identity = .ok plain := by
  have hSecrets (i : Nat) : ((entropy.draw fileKeyLength).2.draw nonceLength).2.secretAfter i =
      entropy.secretAfter (i + 2) := by
    rw [Entropy.secretAfter_draw, Entropy.secretAfter_draw]
  refine decrypt_encrypt_of_find hPlain (List.ne_nil_of_mem hMem) entropy
    (findSome?_unwrap hMem (Entropy.size_draw _ _) (fun i hi => ?_) fun i hi => ?_)
  · rw [hSecrets]
    exact hOwn i hi
  · rw [hSecrets]
    exact hOthers i hi

end Age

end VaultSync
