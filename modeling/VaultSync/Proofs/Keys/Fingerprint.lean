import VaultSync.Keys.Store
import VaultSync.Proofs.Files.Walk

/-! Ids of parsed keys. An id is forty capital digits of a digest, whatever the key file holds, so it is
safe as a file name and its file is recognized as a key file. -/
namespace VaultSync

namespace Bytes

/-- The loop behind `ByteArray.toList` writes the bytes from an index on in front of what it has. -/
theorem toList_loop (b : ByteArray) (i : Nat) (written : List UInt8) :
    ByteArray.toList.loop b i written = written.reverse ++ b.data.toList.drop i := by
  have hLength : b.data.toList.length = b.size := by rw [Array.length_toList, ByteArray.size_data]
  induction h : b.size - i generalizing i written with
  | zero =>
      rw [ByteArray.toList.loop, if_neg (by omega), List.drop_eq_nil_of_le (by omega), List.append_nil]
  | succ n ih =>
      have hIn : i < b.data.toList.length := by omega
      have hByte : b.get! i = b.data.toList[i] := getElem!_pos b.data i (by simpa using hIn)
      rw [ByteArray.toList.loop, if_pos (by omega), ih (i + 1) _ (by omega), List.reverse_cons,
        List.append_assoc, List.singleton_append, List.drop_eq_getElem_cons hIn, hByte]

theorem toList_eq (b : ByteArray) : b.toList = b.data.toList := by
  rw [ByteArray.toList, toList_loop, List.reverse_nil, List.nil_append, List.drop_zero]

theorem length_toList (b : ByteArray) : b.toList.length = b.size := by
  rw [toList_eq, Array.length_toList, ByteArray.size_data]

theorem size_pushBE (b : ByteArray) (w : UInt32) : (pushBE b w).size = b.size + 4 := by
  simp [pushBE]

theorem size_foldl_pushBE (b : ByteArray) (words : List UInt32) :
    (words.foldl pushBE b).size = b.size + 4 * words.length := by
  induction words generalizing b with
  | nil => simp
  | cons w words ih =>
      rw [List.foldl_cons, ih, size_pushBE, List.length_cons]
      omega

end Bytes

namespace Crypto.Sha256

theorem size_compress {state : Array UInt32} (h : state.size = 8) (message : ByteArray) (offset : Nat) :
    (compress state message offset).size = 8 := by
  simp [compress, h]

/-- A digest has thirty-two bytes. -/
theorem size_hash (message : ByteArray) : (hash message).size = 32 := by
  have hState (offsets : List Nat) (padded : ByteArray) {state : Array UInt32} (h : state.size = 8) :
      (offsets.foldl (fun s i => compress s padded (64 * i)) state).size = 8 := by
    induction offsets generalizing state with
    | nil => exact h
    | cons i offsets ih => exact ih (size_compress h padded (64 * i))
  rw [hash, ← Array.foldl_toList, Bytes.size_foldl_pushBE, Array.length_toList, hState _ _ rfl]
  rfl

end Crypto.Sha256

namespace KeyPair

theorem isAlphanumeric_upperHexDigit {n : Nat} (h : n < 16) :
    KeyId.isAlphanumeric (Text.upperHexDigit n) = true := by
  have : ∀ n < 16, KeyId.isAlphanumeric (Text.upperHexDigit n) = true := by decide
  exact this n h

/-- The length of an id that a key gives: two digits for each byte of the digest that is kept. -/
def idLength : Nat := 2 * fingerprintBytes

/-- A fingerprint is as long as every other one. -/
theorem length_fingerprint (recipient : String) : (fingerprint recipient).toList.length = idLength := by
  have hDigits (digest : ByteArray) (h : digest.size = 32) :
      (Bytes.slice digest 0 fingerprintBytes).toList.length = fingerprintBytes := by
    rw [Bytes.length_toList, Bytes.slice, ByteArray.size_extract, h]
    rfl
  simp [fingerprint, List.length_flatMap, List.map_const', hDigits _ (Crypto.Sha256.size_hash _), idLength,
    Nat.mul_comm]

/-- An id consists of letters and digits. -/
theorem isAlphanumeric_of_mem_fingerprint {recipient : String} {c : Char}
    (h : c ∈ (fingerprint recipient).toList) : KeyId.isAlphanumeric c = true := by
  simp only [fingerprint, String.toList_ofList, List.mem_flatMap, List.mem_cons, List.not_mem_nil,
    or_false] at h
  obtain ⟨b, -, rfl | rfl⟩ := h
  · exact isAlphanumeric_upperHexDigit (by have := b.toNat_lt; omega)
  · exact isAlphanumeric_upperHexDigit (Nat.mod_lt _ (by decide))

/-- A fingerprint passes the check on ids. -/
theorem isValid_fingerprint (recipient : String) : KeyId.isValid (fingerprint recipient) = true := by
  have hLength : (fingerprint recipient).toList.length = 40 := length_fingerprint recipient
  have hChars : ∀ c ∈ (fingerprint recipient).toList, KeyId.isAlphanumeric c = true :=
    fun c h => isAlphanumeric_of_mem_fingerprint h
  rw [KeyId.isValid]
  cases hList : (fingerprint recipient).toList with
  | nil => simp [hList] at hLength
  | cons c rest =>
      rw [hList] at hLength hChars
      have hInner : rest.all KeyId.isInner = true := by
        rw [List.all_eq_true]
        intro d hd
        rw [KeyId.isInner, hChars d (List.mem_cons_of_mem c hd)]
        rfl
      have hShort : rest.length < KeyId.maxLength := by
        rw [List.length_cons] at hLength
        rw [KeyId.maxLength]
        omega
      simp [hChars c List.mem_cons_self, hInner, hShort]

/-- A key file gives the key of the identity in it. -/
theorem ofFile_eq_ok {bytes : ByteArray} {key : KeyPair} (h : ofFile bytes = .ok key) :
    ∃ identity, identityOf bytes = .ok identity ∧
      key = ⟨fingerprint identity.recipient.toText, bytes, some identity.recipient.toText.toUTF8⟩ := by
  obtain ⟨identity, hIdentity, hKey⟩ := bind_eq_ok.1 h
  exact ⟨identity, hIdentity, (Except.ok.inj hKey).symm⟩

end KeyPair

/-- A key that some key file gave. -/
abbrev ParsedKey := { key : KeyPair // ∃ bytes, KeyPair.ofFile bytes = .ok key }

namespace ParsedKey

variable (key : ParsedKey)

/-- The bytes of a key give the key itself again. -/
theorem ofFile_secret : KeyPair.ofFile key.1.secret = .ok key.1 := by
  obtain ⟨key, bytes, h⟩ := key
  obtain ⟨identity, -, rfl⟩ := KeyPair.ofFile_eq_ok h
  exact h

theorem isValid_id : KeyId.isValid key.1.id = true := by
  obtain ⟨bytes, h⟩ := key.2
  obtain ⟨identity, -, hKey⟩ := KeyPair.ofFile_eq_ok h
  rw [hKey, KeyPair.isValid_fingerprint]

theorem length_id : key.1.id.toList.length = KeyPair.idLength := by
  obtain ⟨bytes, h⟩ := key.2
  obtain ⟨identity, -, hKey⟩ := KeyPair.ofFile_eq_ok h
  rw [hKey, KeyPair.length_fingerprint]

end ParsedKey

namespace Text

/-- A text of ASCII characters has a byte for each of them. -/
theorem utf8ByteSize_of_ascii {s : String} (h : ∀ c ∈ s.toList, c.toNat < 128) :
    s.utf8ByteSize = s.toList.length := by
  obtain ⟨cs, rfl⟩ : ∃ cs, s = String.ofList cs := ⟨s.toList, String.ofList_toList.symm⟩
  rw [String.toList_ofList] at h ⊢
  induction cs with
  | nil => rfl
  | cons c cs ih =>
      have hOne : c.utf8Size = 1 := by
        have := h c List.mem_cons_self
        rw [Char.utf8Size, if_pos]
        simpa [UInt32.le_iff_toNat_le] using Nat.le_of_lt_succ this
      have hSplit : String.ofList (c :: cs) = String.singleton c ++ String.ofList cs := by
        rw [← String.toList_inj]
        simp
      rw [hSplit, String.utf8ByteSize_append, String.utf8ByteSize_singleton, hOne,
        ih fun d hd => h d (List.mem_cons_of_mem c hd), List.length_cons, Nat.add_comm]

end Text

namespace KeyStore

theorem toList_fileName (id : String) : (fileName id).toList = id.toList ++ ['.', 'k', 'e', 'y'] := by
  simp [fileName, fileExtension]

/-- The file name tells the id. -/
theorem fileName_inj {id id' : String} (h : fileName id = fileName id') : id = id' := by
  have := congrArg String.toList h
  rw [toList_fileName, toList_fileName, List.append_cancel_right_eq] at this
  exact String.toList_inj.1 this

variable {id : String}

/-- The name of a key file has only characters that an id may have. -/
theorem isInner_of_mem_fileName (hId : KeyId.isValid id = true) {c : Char} (h : c ∈ (fileName id).toList) :
    KeyId.isInner c = true := by
  rw [toList_fileName, List.mem_append] at h
  rcases h with h | h
  · rw [KeyId.isValid] at hId
    cases hList : id.toList with
    | nil => simp [hList] at h
    | cons d rest =>
        simp only [hList, Bool.and_eq_true, List.all_eq_true] at hId
        rw [hList, List.mem_cons] at h
        rcases h with rfl | h
        · rw [KeyId.isInner, hId.1.1]
          rfl
        · exact hId.1.2 c h
  · have hInner : ['.', 'k', 'e', 'y'].all KeyId.isInner = true := by decide
    exact List.all_eq_true.1 hInner c h

/-- The name of a key file stays one component of a path. -/
theorem slash_notMem_fileName (hId : KeyId.isValid id = true) : '/' ∉ (fileName id).toList := fun h =>
  absurd (isInner_of_mem_fileName hId h) (by decide)

theorem nul_notMem_fileName (hId : KeyId.isValid id = true) : '\x00' ∉ (fileName id).toList := fun h =>
  absurd (isInner_of_mem_fileName hId h) (by decide)

theorem lt_of_isInner {c : Char} (h : KeyId.isInner c = true) : c.toNat < 128 := by
  simp only [KeyId.isInner, KeyId.isAlphanumeric, Bool.or_eq_true, Bool.and_eq_true, decide_eq_true_eq,
    beq_iff_eq, Char.le_def, UInt32.le_iff_toNat_le] at h
  rcases h with ((((h | h) | h) | rfl) | rfl) | rfl
  · exact Nat.lt_of_le_of_lt h.2 (by decide)
  · exact Nat.lt_of_le_of_lt h.2 (by decide)
  · exact Nat.lt_of_le_of_lt h.2 (by decide)
  · decide
  · decide
  · decide

/-- The name of a key file has four characters more than the id, each of one byte. -/
theorem utf8ByteSize_fileName (hId : KeyId.isValid id = true) :
    (fileName id).utf8ByteSize = id.toList.length + 4 := by
  rw [Text.utf8ByteSize_of_ascii fun c h => lt_of_isInner (isInner_of_mem_fileName hId h),
    toList_fileName, List.length_append]
  rfl

/-- The room that a key file takes in a path behind its directory: for a slash, an id of some length, a dot and the
extension. -/
def fileRoom (idLength : Nat) : Nat := 1 + idLength + 1 + fileExtension.length

/-- A key file takes its room in the path, one byte for the slash before it. -/
theorem one_add_utf8ByteSize_fileName (hId : KeyId.isValid id = true) :
    1 + (fileName id).utf8ByteSize = fileRoom id.toList.length := by
  have hExtension : fileExtension.length = 3 := rfl
  rw [utf8ByteSize_fileName hId, fileRoom, hExtension]
  omega

theorem isName_fileName (id : String) : Files.IsName (fileName id) := by
  have hShort {s : String} (h : s.toList.length < 4) : fileName id ≠ s := by
    rintro rfl
    rw [toList_fileName, List.length_append] at h
    exact absurd h (by simp)
  exact ⟨hShort (by decide), hShort (by decide), hShort (by decide)⟩

theorem components_of_isName {name : String} (h : Files.IsName name) (hSlash : '/' ∉ name.toList) :
    Path.components name = [.name name] := by
  have hHead : name.toList.head? ≠ some '/' := fun hHead => hSlash (List.mem_of_mem_head? hHead)
  rw [Path.components, Text.splitOnChar_of_notMem hSlash]
  simp [hHead, h.1, h.2.1, h.2.2]

/-- The store recognizes the files that it writes. -/
theorem canHandle_fileName (hId : KeyId.isValid id = true) : canHandle (fileName id) = true := by
  have hNonempty : id.toList ≠ [] := by
    intro h
    rw [KeyId.isValid, h] at hId
    exact absurd hId (by decide)
  have hBackwards : (fileName id).toList.reverse = ['y', 'e', 'k'] ++ '.' :: id.toList.reverse := by
    rw [toList_fileName, List.reverse_append]
    rfl
  have hExtension : Path.extension? (fileName id) = some fileExtension := by
    rw [Path.extension?, Path.fileName?,
      components_of_isName (isName_fileName id) (slash_notMem_fileName hId)]
    simp [hBackwards, List.takeWhile, List.dropWhile, hNonempty, fileExtension]
  rw [canHandle, hExtension]
  rfl

end KeyStore

end VaultSync
