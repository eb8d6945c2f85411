import VaultSync.Proofs.Files.Made
import VaultSync.Proofs.Files.Spares
import VaultSync.Proofs.Files.Temporary
import VaultSync.Proofs.Keys.Naming

/-! What writing keys changes besides the keys. An addition or a removal touches the file of its key and no other, and
one that fails touches none; what it began to write goes away again. -/
namespace VaultSync.KeyStore

open Files

variable {store : KeyStore} {files files' made : Files} {loc : Location} {key : KeyPair} {temp dataDir : String}
  {broken : Option Break} {reply : Except VaultError String}

/-! ### Directories -/

/-- Where directories are made for keys: on the way to their directory, and if the directory of the data is there,
only for themselves. -/
def Place (dataDir : String) (files : Files) (l : Location) : Prop :=
  OnWay (files.start (inData dataDir).dir) (Path.spelled (Text.splitOnChar '/' (inData dataDir).dir)) l ∧
    (files.isDirectory dataDir = true → l = files.destination (inData dataDir).dir)

/-- The keys lie below the data directory. -/
theorem destination_inData (dataDir : String) (files : Files) :
    files.destination (inData dataDir).dir = files.destination dataDir ++ [dirName] := by
  have hParts : Text.splitOnChar '/' dirName = [dirName] := Text.splitOnChar_of_notMem (by decide)
  rw [inData, destination_join files dataDir (by decide), hParts]
  rfl

/-- The directories made for a key lie on the way to its place. -/
theorem createDirAll_growsAt_place (dataDir : String) (files : Files) :
    GrowsAt (Place dataDir files) files (files.createDirAll (inData dataDir).dir).2 := by
  intro l
  rcases createDirAll_growsAt files (inData dataDir).dir l with hSame | ⟨hNone, hMade, hWay⟩
  · exact .inl hSame
  · refine .inr ⟨hNone, hMade, hWay, fun hData => ?_⟩
    obtain ⟨loc, hRoot, hDir⟩ := isDirectory_eq_true_iff.1 hData
    have hName : ∀ name ∈ [dirName], IsName name := by
      intro name hMem
      rw [List.mem_singleton.1 hMem]
      unfold IsName
      decide
    have hParts : Text.splitOnChar '/' dirName = [dirName] := Text.splitOnChar_of_notMem (by decide)
    have hSpelled : Path.spelled [dirName] = [dirName] := by decide
    rw [inData, start_join files dataDir (by decide), Path.spelled_join dataDir (by decide), hParts, hSpelled] at hWay
    obtain ⟨⟨below, rfl⟩, hBelow⟩ := hWay.below hRoot hDir hName hNone
    rw [List.prefix_append_right_inj] at hBelow
    rw [destination_inData, destination_of_resolve hRoot]
    -- The directory of the data itself is there already.
    rcases List.prefix_cons_iff.1 hBelow with rfl | ⟨rest, rfl, hRest⟩
    · rw [List.append_nil, hDir] at hNone
      cases hNone
    · rw [List.prefix_nil.1 hRest]

/-! ### Temporary files -/

/-- Adds a key step by step: its file is written under a temporary name first. -/
def addThrough (store : KeyStore) (temp : String) (broken : Option Break) (key : KeyPair) (files : Files) :
    Except VaultError String × Files :=
  match store.keyFile key.id with
  | .error e => (.error e, files)
  | .ok path =>
    match files.createDirAll store.dir with
    | (.error e, files) => (.error (.keyDirCreate store.dir e), files)
    | (.ok (), files) =>
      match files.replaceThrough (store.pathOf temp) path key.secret fileMode broken with
      | (.error e, files) => (.error (.file e), files)
      | (.ok (), files) => (.ok key.id, files)

/-- Imports a key file with some way to add its key. -/
def importWith (add : KeyPair → Files → Except VaultError String × Files) (source : String) (files : Files) :
    Except VaultError KeyPair × Files :=
  match files.read source with
  | .error e => (.error (.file e), files)
  | .ok bytes =>
    match KeyPair.ofFile bytes with
    | .error e => (.error e, files)
    | .ok key =>
      match add key files with
      | (.error e, files) => (.error e, files)
      | (.ok _, files) => (.ok key, files)

theorem importFile_eq (store : KeyStore) : store.importFile = importWith store.add := rfl

section Temporary

variable (hNamed : ∃ parts name, Text.splitOnChar '/' store.dir = parts ++ [name] ∧ IsName name)

include hNamed

/-- What is put into the directory does not change where its key files are. -/
theorem resolve_file_insert {id : String} {node : Node} {last : Location} (hId : KeyId.isValid id = true)
    (hDir : files.resolve store.dir = .ok loc) (hMade : files.lookup loc = some .directory)
    (hFree : files.lookup last = none) :
    (files.insert last node).resolve (store.pathOf (fileName id)) = files.resolve (store.pathOf (fileName id)) := by
  have hNode := ne_directory_of_free hFree
  have hSlash := slash_notMem_fileName hId
  by_cases hShort : store.dir.utf8ByteSize + 1 + (fileName id).utf8ByteSize ≤ maxPathBytes
  · have hSize : (fileName id).utf8ByteSize ≤ maxNameBytes := by
      obtain ⟨-, hLength, -⟩ := KeyId.isValid_iff.1 hId
      rw [utf8ByteSize_fileName hId, String.length_toList, maxNameBytes]
      omega
    have hPath := resolve_pathOf hNamed hDir hMade (isName_fileName id) hSlash (nul_notMem_fileName hId) hSize hShort
    rw [hPath, resolve_insert hNode hPath]
  · -- A path that is too long is refused before anything is looked up.
    have hLong : maxPathBytes < (store.pathOf (fileName id)).utf8ByteSize := by
      rw [pathOf_eq hNamed hSlash, String.utf8ByteSize_append, String.utf8ByteSize_append]
      exact Nat.not_le.1 hShort
    simp only [resolve, if_pos hLong]

/-- A temporary file does not change where the file of its key is. -/
theorem resolve_file_temporary {content : ByteArray} {mode : Nat} (hTemp : isTemporary temp = true)
    (hId : KeyId.isValid key.id = true) (hPath : files.resolve (store.pathOf temp) = .ok loc)
    (hFree : files.lookup loc = none) : (files.insert loc (.file content mode)).resolve
      (store.pathOf (fileName key.id)) = files.resolve (store.pathOf (fileName key.id)) := by
  obtain ⟨-, hDir, hMade⟩ := resolve_entry hNamed (isName_temporary hTemp) (slash_notMem_temporary hTemp) hPath
  exact resolve_file_insert hNamed hId hDir hMade hFree

/-- Adding a key step by step has the effect of adding it at once, or none but that its directory is there. -/
theorem addThrough_cases (hTemp : isTemporary temp = true) :
    store.addThrough temp broken key files = store.add key files ∨
    ∃ e, store.addThrough temp broken key files = (.error e, (files.createDirAll store.dir).2) := by
  cases hId : KeyId.isValid key.id with
  | false => exact .inl (by rw [addThrough, add, keyFile_of_not_isValid hId])
  | true =>
      rw [addThrough, add, keyFile_of_isValid hId]
      rcases hDir : files.createDirAll store.dir with ⟨reply, made⟩
      cases reply with
      | error e => exact .inl rfl
      | ok =>
          rcases @replaceThrough_cases made (store.pathOf temp) (store.pathOf (fileName key.id)) key.secret fileMode
            broken fun loc hPath hFree => resolve_file_temporary hNamed hTemp hId hPath hFree with
            ⟨e, hWrite⟩ | ⟨files', hReplace, hWrite⟩
          · exact .inr ⟨.file e, by simp only [hWrite]⟩
          · exact .inl (by simp only [hWrite, hReplace])

/-- Unless it breaks off, adding a key step by step is adding it at once, whatever the temporary name. -/
theorem addThrough_eq {fresh : Files} (hTemp : isTemporary temp = true)
    (hNew : (files.createDirAll store.dir).2.createNew (store.pathOf temp) fileMode = .ok fresh) :
    store.addThrough temp none key files = store.add key files := by
  cases hId : KeyId.isValid key.id with
  | false => rw [addThrough, add, keyFile_of_not_isValid hId]
  | true =>
      obtain ⟨loc, hPath, hFree⟩ := exists_free_of_createNew hNew
      have hWhole := replaceThrough_eq hPath hFree
        (@resolve_file_temporary _ _ _ key _ hNamed key.secret fileMode hTemp hId hPath hFree)
      rw [addThrough, add, keyFile_of_isValid hId]
      rcases hDir : files.createDirAll store.dir with ⟨reply, made⟩
      rw [hDir] at hWhole
      cases reply with
      | error e => rfl
      | ok =>
          simp only [hWhole]
          cases made.replace (store.pathOf (fileName key.id)) key.secret fileMode <;> rfl

end Temporary

/-! ### What is touched -/

/-- What adding a key changes. An addition that fails has at most made directories, and one that succeeds has
besides put down the file of its key. -/
def Stays (dataDir : String) (key : KeyPair) (files : Files) : Except VaultError String × Files → Prop
  | (.error _, files') => GrowsAt (Place dataDir files) files files'
  | (.ok _, files') => Puts (Place dataDir files) files files' ((inData dataDir).fileLocation files key.id)
      key.secret fileMode

/-- An import touches the key file of its id alone. -/
theorem stays_add (dataDir : String) (key : KeyPair) (files : Files) :
    Stays dataDir key files ((inData dataDir).add key files) := by
  have hGrows := createDirAll_growsAt_place dataDir files
  have hWork : (files.createDirAll (inData dataDir).dir).2.workDir = files.workDir :=
    (@Spares.createDirAll (fun _ => False) files (inData dataDir).dir).workDir
  cases hId : KeyId.isValid key.id with
  | false =>
      rw [add, keyFile_of_not_isValid hId]
      exact .refl _ files
  | true =>
      rw [add, keyFile_of_isValid hId]
      -- the checks on the id come before anything is written
      rcases hDir : files.createDirAll (inData dataDir).dir with ⟨reply, made⟩
      rw [hDir] at hGrows hWork
      cases reply with
      | error e => exact hGrows
      | ok =>
          cases hReplace : made.replace ((inData dataDir).pathOf (fileName key.id)) key.secret fileMode with
          | error e =>
              simp only [hReplace]
              exact hGrows
          | ok files' =>
              obtain ⟨loc, hPath, hNode, rfl⟩ := replace_eq_ok hReplace
              obtain ⟨rfl, -⟩ := resolve_file (inData_isNamed dataDir) hId hPath
              simp only [hReplace]
              rw [fileLocation_congr hWork] at hNode ⊢
              exact Puts.insert hWork hGrows hNode

/-- An import step by step touches the key file of its id alone, at whichever write it breaks off. -/
theorem stays_addThrough (hTemp : isTemporary temp = true) :
    Stays dataDir key files ((inData dataDir).addThrough temp broken key files) := by
  rcases @addThrough_cases _ files key _ broken (inData_isNamed dataDir) hTemp with hSame | ⟨e, hFailed⟩
  · rw [hSame]
    exact stays_add dataDir key files
  · rw [hFailed]
    exact createDirAll_growsAt_place dataDir files

/-- An import that fails has at most made directories, whichever way keys are added. -/
theorem growsAt_of_importWith {add : KeyPair → Files → Except VaultError String × Files} {source : String}
    {e : VaultError} (hStays : ∀ key, Stays dataDir key files (add key files))
    (h : importWith add source files = (.error e, files')) : GrowsAt (Place dataDir files) files files' := by
  rw [importWith] at h
  split at h
  · cases h
    exact .refl _ _
  · split at h
    · cases h
      exact .refl _ _
    · rename_i key _
      have hAdded := hStays key
      split at h
      · rename_i hAdd
        cases h
        rwa [hAdd] at hAdded
      · cases h

/-- A removal that fails changes nothing, and one that succeeds takes away the file of its key if it is there. -/
theorem remove_touches (h : (inData dataDir).remove key files = (reply, files')) :
    (∀ e, reply = .error e → files' = files) ∧ files'.workDir = files.workDir ∧
      ∀ l, files'.lookup l = files.lookup l ∨ l = (inData dataDir).fileLocation files key.id ∧
        files.lookup l ≠ some .directory ∧ files'.lookup l = none := by
  rcases @remove_cases _ files (inData_isNamed dataDir) key with ⟨e, hFailed⟩ | ⟨-, -, ⟨-, hSame⟩ | ⟨-, hNode, hGone⟩⟩
  · rw [hFailed] at h
    cases h
    exact ⟨fun _ _ => rfl, rfl, fun _ => .inl rfl⟩
  · rw [hSame] at h
    cases h
    exact ⟨fun _ _ => rfl, rfl, fun _ => .inl rfl⟩
  · rw [hGone] at h
    cases h
    refine ⟨(fun e hError => by cases hError), rfl, fun l => ?_⟩
    rw [lookup_erase _ (ne_root_of_lookup hNode)]
    split
    · rename_i hLoc
      exact .inr ⟨hLoc, hLoc ▸ hNode, rfl⟩
    · exact .inl rfl

/-- A key that is added or removed, with whatever id, changes its own file and no other. An addition makes at most the
directory of the keys, and those that lead to it if they are missing. If it is written step by step under a temporary
name, it does the same however far it gets, and all of it when no step fails. What fails, an import too, leaves every
file as it was and no new one. An id that is not accepted is refused before anything is touched. -/
theorem writing_touches (dataDir : String) (key : KeyPair) (files : Files) :
    Stays dataDir key files ((inData dataDir).add key files) ∧
    (∀ temp broken, isTemporary temp = true →
      Stays dataDir key files ((inData dataDir).addThrough temp broken key files) ∧
      (∀ source e files', importWith ((inData dataDir).addThrough temp broken) source files = (.error e, files') →
        GrowsAt (Place dataDir files) files files') ∧
      ∀ fresh, (files.createDirAll (inData dataDir).dir).2.createNew ((inData dataDir).pathOf temp) fileMode =
          .ok fresh →
        (inData dataDir).addThrough temp none key files = (inData dataDir).add key files) ∧
    (∀ e files', (inData dataDir).remove key files = (.error e, files') → files' = files) ∧
    (∀ id files', (inData dataDir).remove key files = (.ok id, files') → files'.workDir = files.workDir ∧
      ∀ l, files'.lookup l = files.lookup l ∨ l = (inData dataDir).fileLocation files key.id ∧
        files.lookup l ≠ some .directory ∧ files'.lookup l = none) ∧
    (∀ source e files', (inData dataDir).importFile source files = (.error e, files') →
      GrowsAt (Place dataDir files) files files') ∧
    (KeyId.validate key.id ≠ .ok () →
      (inData dataDir).add key files = (.error (.invalidKeyId key.id), files) ∧
      (∀ temp broken, (inData dataDir).addThrough temp broken key files = (.error (.invalidKeyId key.id), files)) ∧
      ∃ e, (inData dataDir).remove key files = (.error e, files)) := by
  refine ⟨stays_add dataDir key files, fun temp broken hTemp => ⟨stays_addThrough hTemp, fun source e files' =>
    growsAt_of_importWith fun _ => stays_addThrough hTemp, fun fresh => addThrough_eq (inData_isNamed dataDir) hTemp⟩,
    fun e files' hRemove => (remove_touches hRemove).1 e rfl, fun id files' hRemove => (remove_touches hRemove).2,
    fun source e files' hImport => ?_, fun hId => ?_⟩
  · rw [importFile_eq] at hImport
    exact growsAt_of_importWith (fun other => stays_add dataDir other files) hImport
  · have hRefused : KeyId.isValid key.id = false := by
      rw [Ne, KeyId.validate_eq_ok] at hId
      exact Bool.not_eq_true _ ▸ hId
    have hFile := @keyFile_of_not_isValid (inData dataDir) key.id hRefused
    refine ⟨by rw [add, hFile], fun temp broken => by rw [addThrough, hFile], ?_⟩
    rcases @remove_cases _ files (inData_isNamed dataDir) key with hFailed | ⟨-, hValid, -⟩
    · exact hFailed
    · rw [hRefused] at hValid
      cases hValid

/-- A directory in the place of the file stays. -/
example (files : Files) (hFiles : files = ⟨[], [(["data"], .directory), (["data", "keys"], .directory),
      (["data", "keys", "a.key"], .directory)]⟩) :
    (inData "data").add ⟨"a", .empty, none⟩ files = (.error (.file .isDirectory), files) := by
  subst hFiles
  rfl

end VaultSync.KeyStore
