import VaultSync.Entries.Store
import VaultSync.Proofs.Keys.Directory
import VaultSync.Proofs.Keys.Recipient

/-! Single entries. An entry lies in a file that no key store mistakes for a key, encrypting either writes
that file or leaves all files alone, and decrypting tries the stored keys in turn. -/
namespace VaultSync.Entries

open Files

variable {keys : KeyStore} {files : Files} {root name path : String} {plain sealed : ByteArray}
  {entropy : Entropy} {loc : Location}

/-! ### Where entries lie -/

/-- What every path of an entry ends in. -/
def suffix : List Char := ['.', 'a', 'g', 'e']

/-- The name of a file that an entry lies in. -/
def fileName (stem : List Char) : String := String.ofList (stem ++ suffix)

theorem isName_fileName (stem : List Char) : IsName (fileName stem) := by
  have hShort {s : String} (h : s.toList.length < 4) : fileName stem ≠ s := by
    rintro rfl
    rw [fileName, String.toList_ofList, List.length_append] at h
    exact absurd h (by simp [suffix])
  exact ⟨hShort (by decide), hShort (by decide), hShort (by decide)⟩

/-- The file of an entry is not the file of a key. -/
theorem canHandle_fileName {stem : List Char} (h : '/' ∉ stem) :
    KeyStore.canHandle (fileName stem) = false := by
  by_cases hStem : stem = []
  · subst hStem
    decide
  have hSlash : '/' ∉ (fileName stem).toList := by
    rw [fileName, String.toList_ofList, List.mem_append]
    exact not_or.2 ⟨h, by decide⟩
  have hBackwards : (fileName stem).toList.reverse = ['e', 'g', 'a'] ++ '.' :: stem.reverse := by
    rw [fileName, String.toList_ofList, List.reverse_append]
    rfl
  rw [KeyStore.canHandle, Path.extension?, Path.fileName?,
    KeyStore.components_of_isName (isName_fileName stem) hSlash]
  simp [hBackwards, List.takeWhile, List.dropWhile, hStem]
  decide

/-- A location that is given belongs to an accepted name, joined to the root. -/
theorem location_eq_ok (h : location root name = .ok path) :
    isName name = true ∧ path = Path.join root (name ++ "." ++ fileExtension) := by
  rw [location] at h
  split at h
  · rename_i hName
    exact ⟨hName, (Except.ok.inj h).symm⟩
  · cases h

/-- The path of an entry ends in the name of its file. -/
theorem splitOnChar_location (h : location root name = .ok path) :
    ∃ front stem, Text.splitOnChar '/' path = front ++ [fileName stem] ∧ '/' ∉ stem := by
  obtain ⟨-, rfl⟩ := location_eq_ok h
  obtain ⟨front, last, hParts, hMore⟩ :=
    Text.splitChars_append_of_notMem name.toList (show '/' ∉ suffix by decide)
  have hLast : '/' ∉ last := Text.notMem_of_mem_splitChars (hParts ▸ List.mem_concat_self)
  have hName : Text.splitOnChar '/' (name ++ "." ++ fileExtension) =
      front.map String.ofList ++ [fileName last] := by
    have hChars : (name ++ "." ++ fileExtension).toList = name.toList ++ suffix := by
      simp [fileExtension, suffix]
    rw [Text.splitOnChar, hChars, hMore, List.map_append]
    rfl
  obtain ⟨base, hJoin⟩ := Path.splitOnChar_join root (name ++ "." ++ fileExtension)
  exact ⟨base ++ front.map String.ofList, last, by rw [hJoin, hName, List.append_assoc], hLast⟩

/-- No file that a key store reads lies where the path of an entry leads. -/
theorem resolve_ne_key (h : location root name = .ok path) (hPath : files.resolve path = .ok loc)
    (dir : Location) (other : String) (hOther : KeyStore.canHandle other = true) : loc ≠ dir ++ [other] := by
  obtain ⟨front, stem, hParts, hSlash⟩ := splitOnChar_location h
  obtain ⟨parent, -, -, rfl⟩ := resolve_name (isName_fileName stem) hParts hPath
  intro hEq
  obtain ⟨-, hName⟩ := List.append_inj' hEq rfl
  rw [← List.singleton_inj.1 hName, canHandle_fileName hSlash] at hOther
  cases hOther

/-! ### Encrypting -/

/-- An entry that is not encrypted has at most got directories. One that is was encrypted to all stored
keys and is the only file that changed. -/
theorem encrypt_cases (keys : KeyStore) (root name : String) (plain : ByteArray) (entropy : Entropy)
    (hTree : files.WellFormed) :
    (∃ e files' entropy', encrypt keys root name plain files entropy = (.error e, files', entropy') ∧
      files'.WellFormed ∧ Grows files files') ∨
    ∃ path stored sealed made loc mode entropy', location root name = .ok path ∧
      keys.all files = .ok stored ∧ KeyPair.encrypt plain stored entropy = (.ok sealed, entropy') ∧
      made.WellFormed ∧ Grows files made ∧ made.resolve path = .ok loc ∧
      made.lookup loc ≠ some .directory ∧
      encrypt keys root name plain files entropy =
        (.ok path, made.insert loc (.file sealed mode), entropy') := by
  rw [encrypt]
  cases hName : location root name with
  | error e => exact .inl ⟨e, files, entropy, rfl, hTree, .refl files⟩
  | ok path =>
      cases hAll : keys.all files with
      | error e => exact .inl ⟨e, files, entropy, rfl, hTree, .refl files⟩
      | ok stored =>
          -- up to here nothing has been written; what follows can leave directories behind
          rcases hEncrypt : KeyPair.encrypt plain stored entropy with ⟨result, entropy'⟩
          cases result with
          | error e => exact .inl ⟨e, files, entropy', by simp only [hEncrypt], hTree, .refl files⟩
          | ok sealed =>
              obtain ⟨hTree', hGrows⟩ := createParents_grows hTree path
              rcases hParents : files.createParents path with ⟨reply, made⟩
              rw [hParents] at hTree' hGrows
              cases reply with
              | error e =>
                  exact .inl ⟨.file e, made, entropy', by simp only [hEncrypt, hParents], hTree', hGrows⟩
              | ok =>
                  cases hWrite : made.write path sealed with
                  | error e =>
                      exact .inl ⟨.file e, made, entropy', by simp only [hEncrypt, hParents, hWrite], hTree',
                        hGrows⟩
                  | ok files' =>
                      obtain ⟨loc, mode, hPath, hNode, rfl⟩ := write_eq_ok hWrite
                      exact .inr ⟨path, stored, sealed, made, loc, mode, entropy', rfl, rfl, hEncrypt,
                        hTree', hGrows, hPath, hNode, by simp only [hEncrypt, hParents, hWrite]⟩

/-- An entry is encrypted when its directories were made and its file was written. -/
theorem encrypt_eq_ok {files' : Files} {entropy' : Entropy}
    (h : encrypt keys root name plain files entropy = (.ok path, files', entropy')) :
    location root name = .ok path ∧ ∃ sealed made, files.createParents path = (.ok (), made) ∧
      made.write path sealed = .ok files' := by
  rw [encrypt] at h
  split at h
  · cases h
  · cases h
  · rename_i found recipients hName _
    split at h
    · cases h
    · rename_i sealed entropy'' _
      split at h
      · cases h
      · rename_i made hMade
        split at h
        · cases h
        · rename_i hWrite
          cases h
          exact ⟨hName, sealed, made, hMade, hWrite⟩

/-- Without a key nothing is encrypted and no file is touched. -/
theorem encrypt_of_no_key (h : ∀ stored, keys.all files = .ok stored → stored = []) (root name : String)
    (plain : ByteArray) (entropy : Entropy) :
    ∃ e, encrypt keys root name plain files entropy = (.error e, files, entropy) := by
  rw [encrypt]
  cases location root name with
  | error e => exact ⟨e, rfl⟩
  | ok path =>
      cases hAll : keys.all files with
      | error e => exact ⟨e, rfl⟩
      | ok stored =>
          obtain rfl := h stored hAll
          exact ⟨_, rfl⟩

/-! ### Decrypting -/

/-- The keys of a list are tried in turn. The first one that opens decides; if none does, what is said
is that the entry cannot be decrypted. -/
theorem openWith_cases (keys : List ParsedKey) (reason : String) :
    (∃ key ∈ keys, ∃ plain, Age.decrypt sealed key.identity = .ok plain ∧
      openWith sealed (.decryptionFailed reason) (keys.map (·.1)) = .ok plain) ∨
    (∀ key ∈ keys, ∃ fault, Age.decrypt sealed key.identity = .error fault) ∧
      ∃ reason', openWith sealed (.decryptionFailed reason) (keys.map (·.1)) =
        .error (.decryptionFailed reason') := by
  induction keys generalizing reason with
  | nil => exact .inr ⟨by simp, reason, rfl⟩
  | cons key keys ih =>
      rw [List.map_cons, openWith, key.decrypt_eq]
      cases hOpen : Age.decrypt sealed key.identity with
      | ok plain => exact .inl ⟨key, List.mem_cons_self, plain, hOpen, rfl⟩
      | error fault =>
          rcases ih fault.message with ⟨other, hMem, plain, hOther, hResult⟩ | ⟨hNone, hResult⟩
          · exact .inl ⟨other, List.mem_cons_of_mem _ hMem, plain, hOther, hResult⟩
          · refine .inr ⟨fun other hMem => ?_, hResult⟩
            rcases List.mem_cons.1 hMem with rfl | hMem
            · exact ⟨fault, hOpen⟩
            · exact hNone other hMem

/-- An entry whose file is there is opened with the stored keys. -/
theorem decrypt_of_file {stored : List KeyPair} {mode : Nat} (h : location root name = .ok path)
    (hPath : files.resolve path = .ok loc) (hFile : files.lookup loc = some (.file sealed mode))
    (hKeys : keys.all files = .ok stored) :
    decrypt keys root name files = openWith sealed (.decryptionFailed "no keys stored") stored := by
  have hStat : files.stat path = .ok (.file sealed mode) := by
    rw [stat_of_resolve hPath, hFile]
    rfl
  simp [decrypt, h, isFile, Files.read, hStat, hKeys, bind, Except.bind]

end VaultSync.Entries
