import VaultSync.Proofs.Files.Joined
import VaultSync.Proofs.Keys.Listing
import VaultSync.Proofs.Keys.Directory

/-! The names of key files. What is accepted as an id, what is written under it and what a directory lists as a key
file agree: a key that was added is there for all later searches, and a file that is still being written is not. -/
namespace VaultSync

namespace KeyId

variable {id : String}

/-- The letters and digits of an id are those of ASCII. -/
theorem isAlphanumeric_eq (c : Char) : isAlphanumeric c = c.isAlphanum := by
  have hUpper : c.isUpper = (decide ('A' ≤ c) && decide (c ≤ 'Z')) := Bool.decide_and ('A' ≤ c) (c ≤ 'Z')
  calc isAlphanumeric c = (c.isDigit || (decide ('A' ≤ c) && decide (c ≤ 'Z')) || c.isLower) := rfl
    _ = (c.isDigit || (c.isUpper || c.isLower)) := by rw [hUpper, Bool.or_assoc]
    _ = c.isAlphanum := Bool.or_comm _ _

theorem isInner_iff {c : Char} : isInner c = true ↔ c.isAlphanum = true ∨ c = '.' ∨ c = '_' ∨ c = '-' := by
  simp only [isInner, isAlphanumeric_eq, Bool.or_eq_true, beq_iff_eq, or_assoc]

/-- An id is accepted for its length, its characters and the first of them. -/
theorem isValid_iff : isValid id = true ↔ 1 ≤ id.length ∧ id.length ≤ 128 ∧
    (∀ c ∈ id.toList, c.isAlphanum = true ∨ c = '.' ∨ c = '_' ∨ c = '-') ∧
    ∃ c, id.toList.head? = some c ∧ c.isAlphanum = true := by
  rw [isValid, ← String.length_toList]
  cases id.toList with
  | nil => simp
  | cons c rest =>
      have hMax : rest.length < maxLength ↔ rest.length + 1 ≤ 128 := Nat.lt_iff_add_one_le
      simp only [Bool.and_eq_true, decide_eq_true_eq, List.all_eq_true, isInner_iff, isAlphanumeric_eq, hMax,
        List.length_cons, List.head?_cons, List.forall_mem_cons]
      constructor
      · rintro ⟨⟨hFirst, hRest⟩, hShort⟩
        exact ⟨Nat.le_add_left _ _, hShort, ⟨.inl hFirst, hRest⟩, c, rfl, hFirst⟩
      · rintro ⟨-, hShort, ⟨-, hRest⟩, first, hHead, hFirst⟩
        exact ⟨⟨Option.some.inj hHead ▸ hFirst, hRest⟩, hShort⟩

theorem validate_eq_ok : validate id = .ok () ↔ isValid id = true := by
  rw [validate]
  split <;> simp_all

end KeyId

namespace KeyStore

open Files VaultSync.Path

variable {store : KeyStore} {files : Files} {loc : Location} {id name : String}

/-! ### Names of files in the making -/

/-- The name of a file that is still being written: it starts in `.tmp` and goes on with six letters and digits. -/
def isTemporary (name : String) : Bool :=
  match name.toList with
  | '.' :: 't' :: 'm' :: 'p' :: random => random.length = 6 && random.all KeyId.isAlphanumeric
  | _ => false

/-- A temporary name is a mark and six letters or digits. -/
theorem isTemporary_iff : isTemporary name = true ↔ ∃ random : List Char,
    name.toList = ['.', 't', 'm', 'p'] ++ random ∧ random.length = 6 ∧
      ∀ c ∈ random, KeyId.isAlphanumeric c = true := by
  rw [isTemporary]
  split
  · rename_i random hName
    simp [hName]
  · rename_i hOther
    simpa using fun random hName => absurd hName (hOther random)

/-- A temporary name has only characters that an id may have. -/
theorem isInner_of_mem_temporary (h : isTemporary name = true) {c : Char} (hChar : c ∈ name.toList) :
    KeyId.isInner c = true := by
  obtain ⟨random, hName, -, hRandom⟩ := isTemporary_iff.1 h
  rw [hName, List.mem_append] at hChar
  rcases hChar with hFront | hRest
  · have hInner : ['.', 't', 'm', 'p'].all KeyId.isInner = true := by decide
    exact List.all_eq_true.1 hInner c hFront
  · rw [KeyId.isInner, hRandom c hRest]
    rfl

theorem slash_notMem_temporary (h : isTemporary name = true) : '/' ∉ name.toList := fun hSlash =>
  absurd (isInner_of_mem_temporary h hSlash) (by decide)

theorem isName_temporary (h : isTemporary name = true) : IsName name := by
  obtain ⟨random, hName, -, -⟩ := isTemporary_iff.1 h
  have hLong {s : String} (hShort : s.toList.length < 4) : name ≠ s := by
    rintro rfl
    rw [hName, List.length_append] at hShort
    exact absurd hShort (by simp)
  exact ⟨hLong (by decide), hLong (by decide), hLong (by decide)⟩

/-- A file that is still being written is no key file: the only dot of its name stands at the front. -/
theorem canHandle_temporary (h : isTemporary name = true) : canHandle name = false := by
  obtain ⟨random, hName, -, hRandom⟩ := isTemporary_iff.1 h
  have hDot : ∀ c ∈ (['t', 'm', 'p'] ++ random).reverse, decide (c ≠ '.') = true := by
    intro c hChar
    rw [decide_eq_true_eq]
    rintro rfl
    rw [List.mem_reverse, List.mem_append] at hChar
    rcases hChar with hFront | hRest
    · exact absurd hFront (by decide)
    · exact absurd (hRandom _ hRest) (by decide)
  have hBackwards : name.toList.reverse = (['t', 'm', 'p'] ++ random).reverse ++ ['.'] := by
    rw [hName, List.cons_append, List.reverse_cons]
  have hExtension : extension? name = none := by
    rw [extension?, fileName?, components_of_isName (isName_temporary h) (slash_notMem_temporary h)]
    simp only [List.getLast?_singleton, Option.bind_eq_bind, Option.bind_some, hBackwards,
      List.dropWhile_append_of_pos hDot]
    rfl
  rw [canHandle, hExtension]

/-! ### Key files -/

/-- The path of a file leads from the directory one step down. -/
theorem components_pathOf (hSlash : '/' ∉ name.toList) (hName : IsName name) :
    components (store.pathOf name) = components store.dir ++ [.name name] := by
  have hSplit := Text.splitOnChar_of_notMem hSlash
  have hRelative : isAbsolute name = false := by
    rw [isAbsolute, decide_eq_false_iff_not]
    exact fun hHead => hSlash (List.mem_of_head? hHead)
  rw [pathOf, components_join store.dir hRelative (by simpa [hSplit] using hName.2.1),
    components_of_isName hName hSlash]

/-- Two ids have two files. -/
theorem keyFile_inj {other path : String} (hId : store.keyFile id = .ok path) :
    store.keyFile other = .ok path ↔ other = id := by
  have hPath {id : String} (hFile : store.keyFile id = .ok path) :
      components path = components store.dir ++ [.name (fileName id)] := by
    obtain ⟨⟨⟩, hValid, hPath⟩ := bind_eq_ok.1 hFile
    have hAccepted := KeyId.validate_eq_ok.1 hValid
    rw [← Except.ok.inj hPath, components_pathOf (slash_notMem_fileName hAccepted) (isName_fileName id)]
  refine ⟨fun hOther => ?_, fun hSame => hSame ▸ hId⟩
  have hSteps := (hPath hOther).symm.trans (hPath hId)
  rw [List.append_cancel_left_eq, List.singleton_inj, Component.name.injEq] at hSteps
  exact fileName_inj hSteps

/-- A file in the directory that goes by the name of a key takes part in every search. -/
theorem mem_keyFiles_of_lookup {content : ByteArray} {mode : Nat} (hDir : files.resolve store.dir = .ok loc)
    (hName : canHandle name = true) (hFile : files.lookup (loc ++ [name]) = some (.file content mode)) :
    ∃ found, store.keyFiles files = .ok found ∧ (name, content) ∈ found := by
  rw [← lookup_children, List.lookup_eq_some_iff] at hFile
  obtain ⟨front, back, hChildren, -⟩ := hFile
  refine ⟨_, keyFiles_eq hDir, List.mem_filterMap.2 ⟨(name, .file content mode), ?_, by simp [keyFile?, hName]⟩⟩
  simp [hChildren]

/-- A key that was added has a valid id, its directory was made and its file was put there. -/
theorem add_eq_ok {key : KeyPair} {files' : Files} (h : store.add key files = (.ok id, files')) :
    id = key.id ∧ KeyId.isValid key.id = true ∧ ∃ made, files.createDirAll store.dir = (.ok (), made) ∧
      made.replace (store.pathOf (fileName key.id)) key.secret fileMode = .ok files' := by
  cases hValid : KeyId.isValid key.id with
  | false =>
      rw [add, keyFile_of_not_isValid hValid] at h
      cases h
  | true =>
      rw [add, keyFile_of_isValid hValid] at h
      split at h
      · cases h
      · rename_i path hPath
        obtain rfl := Except.ok.inj hPath
        split at h
        · cases h
        · rename_i made hMade
          split at h
          · cases h
          · rename_i hReplace
            cases h
            exact ⟨rfl, rfl, made, hMade, hReplace⟩

/-- The file of a key that was added lies directly in the directory. -/
theorem lookup_of_add {key : KeyPair} {files' : Files}
    (hNamed : ∃ parts name, Text.splitOnChar '/' store.dir = parts ++ [name] ∧ IsName name)
    (h : store.add key files = (.ok id, files')) :
    ∃ loc, files'.resolve store.dir = .ok loc ∧ files'.lookup loc = some .directory ∧
      files'.lookup (loc ++ [fileName key.id]) = some (.file key.secret fileMode) := by
  obtain ⟨-, hValid, made, -, hReplace⟩ := add_eq_ok h
  obtain ⟨loc, hPath, hNode, rfl⟩ := replace_eq_ok hReplace
  obtain ⟨rfl, hDir, hMade⟩ := resolve_file hNamed hValid hPath
  refine ⟨made.destination store.dir, resolve_insert hNode hDir, ?_, ?_⟩
  · rw [lookup_insert_of_ne _ _ (by simp [fileLocation]), hMade]
  · exact (lookup_insert _ _ (ne_root_of_lookup hNode) _).trans (if_pos rfl)

/-- An id is accepted when it has between one and 128 characters, all of them letters, digits, dots, underscores or
hyphens, and the first a letter or a digit. Its file then lies one step below the directory and is none of those of
other ids. It goes by a name that is listed, so a key that was added takes part in every search as long as its file
is there; the names of files that are still being written are not listed. The ids that are derived from recipients
are all accepted, so no key out of a key file is refused for its id. -/
theorem names_agree (dataDir : String) :
    (∀ id, KeyId.validate id = .ok () ↔ 1 ≤ id.length ∧ id.length ≤ 128 ∧
      (∀ c ∈ id.toList, c.isAlphanum = true ∨ c = '.' ∨ c = '_' ∨ c = '-') ∧
      ∃ c, id.toList.head? = some c ∧ c.isAlphanum = true) ∧
    (∀ id, KeyId.validate id = .ok () → ∃ path, (inData dataDir).keyFile id = .ok path ∧
      components path = components (inData dataDir).dir ++ [.name (fileName id)] ∧
      canHandle (fileName id) = true ∧
      (∀ other, (inData dataDir).keyFile other = .ok path ↔ other = id) ∧
      ∀ other, fileName other = fileName id ↔ other = id) ∧
    (∀ key files id files', (inData dataDir).add key files = (.ok id, files') →
      KeyId.validate key.id = .ok () ∧ ∃ loc, files'.resolve (inData dataDir).dir = .ok loc ∧
        files'.lookup loc = some .directory ∧
        files'.lookup (loc ++ [fileName key.id]) = some (.file key.secret fileMode)) ∧
    (∀ id files loc content mode, KeyId.validate id = .ok () → files.resolve (inData dataDir).dir = .ok loc →
      files.lookup (loc ++ [fileName id]) = some (.file content mode) →
      ∃ found, (inData dataDir).keyFiles files = .ok found ∧ (fileName id, content) ∈ found) ∧
    (∀ name, isTemporary name = true → canHandle name = false) ∧
    (∀ recipient, KeyId.validate (KeyPair.fingerprint recipient) = .ok ()) ∧
    ∀ bytes key files id, KeyPair.ofFile bytes = .ok key →
      ((inData dataDir).add key files).1 ≠ .error (.invalidKeyId id) := by
  refine ⟨fun id => KeyId.validate_eq_ok.trans KeyId.isValid_iff, fun id hId => ?_, fun key files id files' hAdd => ?_,
    fun id files loc content mode hId hDir hFile => ?_, fun name => canHandle_temporary,
    fun recipient => KeyId.validate_eq_ok.2 (KeyPair.isValid_fingerprint recipient), fun bytes key files id hKey => ?_⟩
  · have hValid := KeyId.validate_eq_ok.1 hId
    have hFile := @keyFile_of_isValid (inData dataDir) id hValid
    exact ⟨_, hFile, components_pathOf (slash_notMem_fileName hValid) (isName_fileName id), canHandle_fileName hValid,
      fun other => keyFile_inj hFile, fun other => ⟨fileName_inj, congrArg fileName⟩⟩
  · exact ⟨KeyId.validate_eq_ok.2 (add_eq_ok hAdd).2.1, lookup_of_add (inData_isNamed dataDir) hAdd⟩
  · exact mem_keyFiles_of_lookup hDir (canHandle_fileName (KeyId.validate_eq_ok.1 hId)) hFile
  · have hFile := keyFile_eq (inData dataDir) ⟨key, bytes, hKey⟩
    rw [add, hFile]
    simp only
    split
    · simp
    · split <;> simp

end KeyStore

end VaultSync
