import VaultSync.Moment
import VaultSync.Proofs.Age.File
import VaultSync.Proofs.Keys.Recipient

/-! What a key file stands for. Only its first secret counts: files with one first secret have one id and one
recipient and decrypt alike, or are refused for one reason. The file that is written for a new identity has notes in
front of the secret, and they do not count either. -/
namespace VaultSync

namespace Moment

theorem isDigit_of_mem_digits {places n : Nat} {c : Char} (h : c ∈ (digits places n).toList) :
    c.isDigit = true := by
  have hDigit : ∀ digit < 10, (Nat.digitChar digit).isDigit = true := by decide
  induction places generalizing n with
  | zero => simp [digits] at h
  | succ places ih =>
      rw [digits, String.toList_append, List.mem_append, String.toList_singleton, List.mem_singleton] at h
      rcases h with hFront | rfl
      · exact ih hFront
      · exact hDigit _ (Nat.mod_lt n (by decide))

/-- A point in time is written on one line. -/
theorem break_notMem_stamp (m : Moment) : '\n' ∉ m.stamp.toList := by
  have hDigits (places n : Nat) : '\n' ∉ (digits places n).toList := fun hMem =>
    absurd (isDigit_of_mem_digits hMem) (by decide)
  simp [stamp, hDigits]

end Moment

namespace KeyPair

variable {bytes other file : ByteArray} {text otherText line : String} {key otherKey : KeyPair}

/-! ### Key files -/

/-- A file whose secret line parses gives the key of that identity, its bytes as they are. -/
theorem ofFile_of_identityOf {identity : Age.Identity} (h : identityOf bytes = .ok identity) : ofFile bytes =
    .ok ⟨fingerprint identity.recipient.toText, bytes, some identity.recipient.toText.toUTF8⟩ := by
  rw [ofFile, h]
  rfl

theorem ofFile_of_error {fault : VaultError} (h : identityOf bytes = .error fault) : ofFile bytes = .error fault := by
  rw [ofFile, h]
  rfl

/-- Keys decrypt alike if one identity is read from their files. -/
theorem decrypt_congr (h : identityOf key.secret = identityOf otherKey.secret) :
    key.decrypt file = otherKey.decrypt file := by
  rw [decrypt, decrypt, h]

/-! ### New keys -/

/-- A note is no secret, whatever is in it. -/
theorem note_notSecret (note : List Char) : ¬ secretMark <+: Text.trimChars ('#' :: note) := by
  intro hMark
  have hChars : secretMark = 'A' :: "GE-SECRET-KEY-".toList := by decide
  rw [Text.trimChars_cons (by decide), hChars, List.cons_prefix_cons] at hMark
  exact absurd hMark.1 (by decide)

/-- What stands in front of the secret in a new key file, without the line breaks. -/
def notes (created : String) (identity : Age.Identity) : List (List Char) :=
  ['#' :: (" created: " ++ created).toList, '#' :: (" public key: " ++ identity.recipient.toText).toList]

/-- A key file is its notes, each a line, and then the line of the secret. -/
theorem fileText_eq (created : String) (identity : Age.Identity) : fileText created identity = String.ofList
    ((notes created identity).flatMap (· ++ ['\n']) ++ ([] ++ identity.toText.toList ++ [] ++ ['\n'])) := by
  have hCreated : "# created: ".toList = '#' :: " created: ".toList := by decide
  have hPublic : "\n# public key: ".toList = '\n' :: '#' :: " public key: ".toList := by decide
  have hBreak : "\n".toList = ['\n'] := by decide
  have hText : fileText created identity = "# created: " ++ created ++ "\n# public key: " ++
      identity.recipient.toText ++ "\n" ++ identity.toText ++ "\n" := rfl
  rw [hText, ← String.toList_inj, String.toList_ofList]
  simp only [notes, String.toList_append, hCreated, hPublic, hBreak, List.flatMap_cons, List.flatMap_nil,
    List.cons_append, List.append_assoc, List.nil_append, List.append_nil]

/-- The secret of a new key file is the text of the identity that it was written for. -/
theorem firstSecret_fileText (now : Moment) (identity : Age.Identity) :
    FirstSecret (fileText now.stamp identity) identity.toText := by
  have hPoint : '\n' ∉ identity.recipient.toText.toList := fun hMem =>
    absurd (Bech32.plain_of_mem_encode Age.Recipient.isPlainName_name hMem).1 (by decide)
  have hBreaks : ∀ row ∈ notes now.stamp identity, '\n' ∉ row := by
    have hCreated : '\n' ∉ '#' :: " created: ".toList := by decide
    have hPublic : '\n' ∉ '#' :: " public key: ".toList := by decide
    simp only [notes, String.toList_append, ← List.cons_append, List.forall_mem_cons, List.mem_append, not_or]
    exact ⟨⟨hCreated, now.break_notMem_stamp⟩, ⟨hPublic, hPoint⟩, List.forall_mem_nil _⟩
  have hNotes : ∀ row ∈ notes now.stamp identity, ¬ secretMark <+: Text.trimChars row := by
    simp only [notes, List.forall_mem_cons]
    exact ⟨note_notSecret _, note_notSecret _, List.forall_mem_nil _⟩
  rw [fileText_eq]
  exact firstSecret_toText identity _ [] [] ['\n'] (fun row hRow => ⟨hBreaks row hRow, hNotes row hRow⟩)
    (List.forall_mem_nil _) (List.forall_mem_nil _) (.inr ⟨[], rfl⟩)

/-- The identity that a key file was written for is read back. -/
theorem identityOf_fileText (now : Moment) {identity : Age.Identity} (h : identity.secret.size = Age.keyLength) :
    identityOf (fileText now.stamp identity).toUTF8 = .ok identity := by
  rw [identityOf_of_firstSecret (fromUTF8?_toUTF8 _) (firstSecret_fileText now identity), Age.Identity.parse_toText h]
  rfl

/-- A new key is the one of the identity that was drawn for it. -/
theorem generate_eq (now : Moment) (entropy : Entropy) {identity : Age.Identity}
    (hDrawn : identity = ⟨(entropy.draw Age.keyLength).1⟩) (hSize : identity.secret.size = Age.keyLength) :
    (generate now.stamp entropy).1 = .ok ⟨fingerprint identity.recipient.toText,
      (fileText now.stamp identity).toUTF8, some identity.recipient.toText.toUTF8⟩ := by
  have hGenerate : (generate now.stamp entropy).1 =
      ofFile (fileText now.stamp ⟨(entropy.draw Age.keyLength).1⟩).toUTF8 := rfl
  rw [hGenerate, ← hDrawn, ofFile_of_identityOf (identityOf_fileText now hSize)]

/-! ### One secret -/

/-- Two files with one first secret give one id and one recipient with the bytes of each, and keys that decrypt
alike, or both are refused for one reason. -/
theorem ofFile_alike (hText : String.fromUTF8? bytes = some text) (hOther : String.fromUTF8? other = some otherText)
    (hFirst : FirstSecret text line) (hOtherFirst : FirstSecret otherText line) :
    (∃ id recipient, ofFile bytes = .ok ⟨id, bytes, some recipient⟩ ∧ ofFile other = .ok ⟨id, other, some recipient⟩ ∧
      ∀ file, decrypt ⟨id, bytes, some recipient⟩ file = decrypt ⟨id, other, some recipient⟩ file) ∨
    ∃ reason, ofFile bytes = .error (invalid reason) ∧ ofFile other = .error (invalid reason) := by
  have hIdentity := identityOf_of_firstSecret hText hFirst
  have hIdentity' := identityOf_of_firstSecret hOther hOtherFirst
  cases hParse : Age.Identity.parse line with
  | error reason =>
      rw [hParse] at hIdentity hIdentity'
      exact .inr ⟨reason, ofFile_of_error hIdentity, ofFile_of_error hIdentity'⟩
  | ok identity =>
      rw [hParse] at hIdentity hIdentity'
      exact .inl ⟨_, _, ofFile_of_identityOf hIdentity, ofFile_of_identityOf hIdentity',
        fun file => decrypt_congr (hIdentity.trans hIdentity'.symm)⟩

/-- Bytes that are not UTF-8 are no key. -/
theorem ofFile_of_noText (h : String.fromUTF8? bytes = none) :
    ofFile bytes = .error (invalid "key is not UTF-8 text") := by
  apply ofFile_of_error
  simp only [identityOf, h]

/-- A text without a line of a secret is no key. -/
theorem ofFile_of_noSecret (hText : String.fromUTF8? bytes = some text)
    (hNone : ∀ row ∈ Text.lines text, ¬ IsSecret row) :
    ofFile bytes = .error (invalid "no AGE-SECRET-KEY line found") := by
  apply ofFile_of_error
  simp only [identityOf, hText, secretLine?_eq_none_iff.2 hNone]

/-- A key depends on the first secret of its file alone. Files with one first secret are one key but for their bytes,
or are refused for one reason. A file that is no text or has no secret is refused. The bytes of a key are those of its
file and give the key again. A new key is the one of the identity that was drawn for it: its file holds the text of
that identity behind the notes, and this text alone gives the same id and recipient. -/
theorem ofFile_depends_on_secret :
    (∀ {bytes other : ByteArray} {text otherText line : String},
      String.fromUTF8? bytes = some text → String.fromUTF8? other = some otherText →
      FirstSecret text line → FirstSecret otherText line →
      (∃ id recipient, ofFile bytes = .ok ⟨id, bytes, some recipient⟩ ∧
        ofFile other = .ok ⟨id, other, some recipient⟩ ∧
        ∀ file, decrypt ⟨id, bytes, some recipient⟩ file = decrypt ⟨id, other, some recipient⟩ file) ∨
      ∃ reason, ofFile bytes = .error (invalid reason) ∧ ofFile other = .error (invalid reason)) ∧
    (∀ {bytes : ByteArray}, String.fromUTF8? bytes = none →
      ofFile bytes = .error (invalid "key is not UTF-8 text")) ∧
    (∀ {bytes : ByteArray} {text : String}, String.fromUTF8? bytes = some text →
      (∀ row ∈ Text.lines text, ¬ IsSecret row) →
      ofFile bytes = .error (invalid "no AGE-SECRET-KEY line found")) ∧
    (∀ {bytes : ByteArray} {key : KeyPair}, ofFile bytes = .ok key →
      key.secret = bytes ∧ ofFile key.secret = .ok key) ∧
    ∀ (now : Moment) (entropy : Entropy), ∃ identity : Age.Identity,
      identity.secret = (entropy.draw Age.keyLength).1 ∧
      ∃ key, (generate now.stamp entropy).1 = .ok key ∧ key.secret = (fileText now.stamp identity).toUTF8 ∧
        FirstSecret (fileText now.stamp identity) identity.toText ∧ identityOf key.secret = .ok identity ∧
        key.id = fingerprint identity.recipient.toText ∧
        key.recipient = some identity.recipient.toText.toUTF8 ∧
        ofFile identity.toText.toUTF8 = .ok ⟨key.id, identity.toText.toUTF8, key.recipient⟩ := by
  refine ⟨ofFile_alike, ofFile_of_noText, ofFile_of_noSecret, fun {bytes key} hKey => ?_, fun now entropy => ?_⟩
  · obtain ⟨identity, -, rfl⟩ := ofFile_eq_ok hKey
    exact ⟨rfl, hKey⟩
  -- The identity stays a name for what was drawn, so that nothing is worked out from the bytes.
  · obtain ⟨identity, hDrawn⟩ : ∃ identity : Age.Identity, identity = ⟨(entropy.draw Age.keyLength).1⟩ := ⟨_, rfl⟩
    have hSize : identity.secret.size = Age.keyLength := by
      rw [hDrawn]
      exact entropy.size_draw Age.keyLength
    exact ⟨identity, congrArg Age.Identity.secret hDrawn, _, generate_eq now entropy hDrawn hSize, rfl,
      firstSecret_fileText now identity, identityOf_fileText now hSize, rfl, rfl,
      ofFile_of_identityOf (identityOf_toText hSize)⟩

/-- A secret on its own. -/
def secretText : String :=
  "AGE-SECRET-KEY-1L7QKWN9RM62DEWYA8MWL9845N554D3ZSUQSDNCKY4X3WWYSR3F7QGVTA47"

/-- The same secret behind a note that mentions one, between blanks and in front of another one. -/
def notedText : String :=
  "# AGE-SECRET-KEY-0\n\n \tAGE-SECRET-KEY-1L7QKWN9RM62DEWYA8MWL9845N554D3ZSUQSDNCKY4X3WWYSR3F7QGVTA47 \r\n" ++
    "AGE-SECRET-KEY-2"

/-- Both files are one key, two files that only have the mark of a secret are refused for one reason, and files
without text or without a secret are refused. -/
theorem ofFile_depends_on_secret_noted :
    (∃ key noted : KeyPair, ofFile secretText.toUTF8 = .ok key ∧ ofFile notedText.toUTF8 = .ok noted ∧
      noted.id = key.id ∧ noted.recipient = key.recipient ∧ noted.secret = notedText.toUTF8 ∧
      ofFile noted.secret = .ok noted) ∧
    (∃ reason, ofFile "AGE-SECRET-KEY-".toUTF8 = .error (invalid reason) ∧
      ofFile "#\n AGE-SECRET-KEY-\r\n".toUTF8 = .error (invalid reason)) ∧
    ofFile ⟨#[255]⟩ = .error (invalid "key is not UTF-8 text") ∧
    ofFile "# AGE-SECRET-KEY-\n".toUTF8 = .error (invalid "no AGE-SECRET-KEY line found") := by
  have hAlone : FirstSecret secretText secretText := secretLine?_eq_some_iff.1 (by decide +kernel)
  have hNoted : FirstSecret notedText secretText := secretLine?_eq_some_iff.1 (by decide +kernel)
  obtain ⟨hAlike, hNoText, hNoSecret, hAgain, -⟩ := ofFile_depends_on_secret
  refine ⟨?_, ?_, hNoText (by decide +kernel), hNoSecret (fromUTF8?_toUTF8 _)
    (secretLine?_eq_none_iff.1 (by decide +kernel))⟩
  · rcases hAlike (fromUTF8?_toUTF8 _) (fromUTF8?_toUTF8 _) hAlone hNoted with
      ⟨id, recipient, hKey, hOther, -⟩ | ⟨reason, hError, -⟩
    · exact ⟨_, _, hKey, hOther, rfl, rfl, hAgain hOther⟩
    · have hRead : (identityOf secretText.toUTF8).isOk = true := by decide +kernel
      cases hIdentity : identityOf secretText.toUTF8 with
      | ok identity =>
          rw [ofFile_of_identityOf hIdentity] at hError
          cases hError
      | error fault =>
          rw [hIdentity] at hRead
          cases hRead
  · have hMark : FirstSecret "AGE-SECRET-KEY-" "AGE-SECRET-KEY-" := secretLine?_eq_some_iff.1 (by decide +kernel)
    have hMarked : FirstSecret "#\n AGE-SECRET-KEY-\r\n" "AGE-SECRET-KEY-" :=
      secretLine?_eq_some_iff.1 (by decide +kernel)
    rcases hAlike (fromUTF8?_toUTF8 _) (fromUTF8?_toUTF8 _) hMark hMarked with
      ⟨id, recipient, hKey, -, -⟩ | hRefused
    · obtain ⟨identity, hIdentity, -⟩ := ofFile_eq_ok hKey
      have hRead : (identityOf "AGE-SECRET-KEY-".toUTF8).isOk = false := by decide +kernel
      rw [hIdentity] at hRead
      cases hRead
    · exact hRefused

end KeyPair

end VaultSync
