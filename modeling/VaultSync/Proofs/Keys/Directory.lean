import VaultSync.Proofs.Files.Tree
import VaultSync.Proofs.Keys.Refinement

/-! A directory of keys among other files. Whatever else lies beside the key files, and in whatever order
the directory lists them, the keys that are read are those that were added and not removed since. -/
namespace VaultSync.KeyStore

open Files
open KeyDeed (added removed)

variable {store : KeyStore} {files files' : Files} {loc : Location}
  {stored : String → Option KeyPair}

/-! ### Where key files lie -/

/-- The directory is there when its path leads to one. -/
theorem requireDir_eq_ok : store.requireDir files = .ok () ↔
    ∃ loc, files.resolve store.dir = .ok loc ∧ files.lookup loc = some .directory := by
  rw [requireDir, ← isDirectory_eq_true_iff]
  split <;> simp_all

section Named

variable (hNamed : ∃ parts name, Text.splitOnChar '/' store.dir = parts ++ [name] ∧ IsName name)

/-- The location of a key file. -/
def fileLocation (store : KeyStore) (files : Files) (id : String) : Location :=
  files.destination store.dir ++ [fileName id]

/-- Two ids with one key file are one id. -/
theorem fileLocation_inj {id id' : String} (h : store.fileLocation files id = store.fileLocation files id') :
    id = id' :=
  fileName_inj (List.singleton_inj.1 (List.append_cancel_left h))

theorem fileLocation_congr (hWork : files'.workDir = files.workDir) (id : String) :
    store.fileLocation files' id = store.fileLocation files id := by
  rw [fileLocation, destination_congr hWork, fileLocation]

theorem fileLocation_insert {node : Node} (id : String) :
    store.fileLocation (files.insert loc node) id = store.fileLocation files id := rfl

theorem fileLocation_erase (id : String) :
    store.fileLocation (files.erase loc) id = store.fileLocation files id := rfl

include hNamed in
/-- The path of a file in the directory can only be followed through the directory. -/
theorem resolve_entry {name : String} (hName : IsName name) (hSlash : '/' ∉ name.toList)
    (h : files.resolve (store.pathOf name) = .ok loc) :
    loc = files.destination store.dir ++ [name] ∧
      files.resolve store.dir = .ok (files.destination store.dir) ∧
      files.lookup (files.destination store.dir) = some .directory := by
  have hParts : Text.splitOnChar '/' (store.pathOf name) = Text.splitOnChar '/' store.dir ++ [name] := by
    rw [pathOf_eq hNamed hSlash, Text.splitOnChar_slash, Text.splitOnChar_of_notMem hSlash]
  obtain ⟨parent, hWalk, hMade, rfl⟩ := resolve_name hName hParts h
  rw [start_pathOf hNamed hSlash] at hWalk
  obtain ⟨hNul, -, hLong, -⟩ := resolve_eq_ok.1 h
  rw [pathOf_eq hNamed hSlash] at hNul hLong
  have hDir : files.resolve store.dir = .ok parent := by
    refine resolve_eq_ok.2 ⟨fun hMem => hNul (by simp [hMem]), dir_ne_empty hNamed, ?_, hWalk⟩
    rw [String.utf8ByteSize_append, String.utf8ByteSize_append] at hLong
    omega
  rw [destination_of_resolve hDir]
  exact ⟨rfl, hDir, hMade⟩

include hNamed in
/-- A path of a key file that resolves leads into the directory of the keys, which is there. -/
theorem resolve_file {id : String} (hId : KeyId.isValid id = true)
    (h : files.resolve (store.pathOf (fileName id)) = .ok loc) :
    loc = store.fileLocation files id ∧
      files.resolve store.dir = .ok (files.destination store.dir) ∧
      files.lookup (files.destination store.dir) = some .directory :=
  resolve_entry hNamed (isName_fileName id) (slash_notMem_fileName hId) h

/-! ### What adding and removing do -/

include hNamed in
/-- An addition that fails has at most made directories. One that succeeds has also put the file of its
key in its place. -/
theorem add_cases (hTree : files.WellFormed) (key : ParsedKey) :
    (∃ e, (store.add key.1 files).1 = .error e ∧ (store.add key.1 files).2.WellFormed ∧
      Grows files (store.add key.1 files).2) ∨
    ∃ made, made.WellFormed ∧ Grows files made ∧
      made.resolve (store.pathOf (fileName key.1.id)) = .ok (store.fileLocation files key.1.id) ∧
      made.lookup (store.fileLocation files key.1.id) ≠ some .directory ∧
      store.add key.1 files = (.ok key.1.id,
        made.insert (store.fileLocation files key.1.id) (.file key.1.secret fileMode)) := by
  obtain ⟨hTree', hGrows⟩ := createDirAll_grows hTree store.dir
  rw [add, keyFile_eq]
  rcases hDir : files.createDirAll store.dir with ⟨reply, made⟩
  rw [hDir] at hTree' hGrows
  cases reply with
  | error e => exact .inl ⟨_, rfl, hTree', hGrows⟩
  | ok =>
      cases hReplace : made.replace (store.pathOf (fileName key.1.id)) key.1.secret fileMode with
      | error e => exact .inl ⟨.file e, by simp only [hReplace], by simpa only [hReplace] using hTree',
          by simpa only [hReplace] using hGrows⟩
      | ok files' =>
          obtain ⟨loc, hPath, hNode, rfl⟩ := replace_eq_ok hReplace
          obtain ⟨rfl, -⟩ := resolve_file hNamed key.isValid_id hPath
          rw [fileLocation_congr hGrows.workDir] at hPath hNode hReplace
          refine .inr ⟨made, hTree', hGrows, hPath, hNode, ?_⟩
          simp only [hReplace]

include hNamed in
/-- A removal that fails changes nothing. One that succeeds finds the directory, and then no file of its key,
or takes it away. -/
theorem remove_cases (key : KeyPair) :
    (∃ e, store.remove key files = (.error e, files)) ∨
    store.requireDir files = .ok () ∧ KeyId.isValid key.id = true ∧
      (files.has (store.pathOf (fileName key.id)) = false ∧ store.remove key files = (.ok key.id, files) ∨
      files.resolve (store.pathOf (fileName key.id)) = .ok (store.fileLocation files key.id) ∧
        files.lookup (store.fileLocation files key.id) ≠ some .directory ∧
        store.remove key files = (.ok key.id, files.erase (store.fileLocation files key.id))) := by
  rw [remove, keyFile, KeyId.validate]
  cases store.requireDir files with
  | error e => exact .inl ⟨e, rfl⟩
  | ok =>
      cases hId : KeyId.isValid key.id with
      | false => exact .inl ⟨_, rfl⟩
      | true =>
          refine (?_ : _ ∨ _).imp_right fun h => ⟨rfl, rfl, h⟩
          simp only [if_true, bind, Except.bind, pure, Except.pure]
          cases hHas : files.has (store.pathOf (fileName key.id)) with
          | false => exact .inr (.inl ⟨rfl, by simp⟩)
          | true =>
              cases hRemove : files.removeFile (store.pathOf (fileName key.id)) with
              | error e => exact .inl ⟨_, by simp only [if_true]; rfl⟩
              | ok files' =>
                  obtain ⟨loc, hPath, hNode, rfl⟩ := removeFile_eq_ok hRemove
                  obtain ⟨rfl, -⟩ := resolve_file hNamed hId hPath
                  exact .inr (.inr ⟨hPath, hNode, by simp⟩)

end Named

/-! ### The stored keys -/

/-- The key files of a directory are those of the stored keys. Other files may lie beside them. -/
structure Tracks (store : KeyStore) (stored : String → Option KeyPair) (files : Files) : Prop where
  /-- What looks like a key file is that of a stored key. -/
  sound : ∀ name content mode, canHandle name = true →
    files.lookup (files.destination store.dir ++ [name]) = some (.file content mode) →
    ∃ key : ParsedKey, stored key.1.id = some key.1 ∧ name = fileName key.1.id ∧ content = key.1.secret
  /-- Every stored key has its file, and the path of the file leads to it. -/
  complete : ∀ id key, stored id = some key → ∃ parsed : ParsedKey, parsed.1 = key ∧ key.id = id ∧
    files.resolve (store.pathOf (fileName id)) = .ok (store.fileLocation files id) ∧
    ∃ mode, files.lookup (store.fileLocation files id) = some (.file key.secret mode)

namespace Tracks

/-- A directory without key files holds no key. -/
theorem empty (h : ∀ name content mode,
    files.lookup (files.destination store.dir ++ [name]) = some (.file content mode) →
      canHandle name = false) : Tracks store (fun _ => none) files where
  sound name content mode hHandled hFile := by
    rw [h name content mode hFile] at hHandled
    cases hHandled
  complete id key hKey := by cases hKey

/-- Only key files and directories matter. -/
theorem of_same (hWork : files'.workDir = files.workDir)
    (hDirs : ∀ l, files.lookup l = some .directory → files'.lookup l = some .directory)
    (hFiles : ∀ name content mode, canHandle name = true →
      (files'.lookup (files.destination store.dir ++ [name]) = some (.file content mode) ↔
        files.lookup (files.destination store.dir ++ [name]) = some (.file content mode)))
    (h : Tracks store stored files) : Tracks store stored files' where
  sound name content mode hHandled hFile := by
    rw [destination_congr hWork] at hFile
    exact h.sound name content mode hHandled ((hFiles name content mode hHandled).1 hFile)
  complete id key hKey := by
    obtain ⟨parsed, rfl, hId, hPath, mode, hFile⟩ := h.complete id key hKey
    have hHandled : canHandle (fileName id) = true := hId ▸ canHandle_fileName parsed.isValid_id
    rw [fileLocation_congr hWork]
    exact ⟨parsed, rfl, hId, resolve_of_directories hWork hDirs hPath, mode,
      (hFiles _ _ _ hHandled).2 hFile⟩

/-- New directories elsewhere do not matter to the keys of a directory. -/
theorem grows (h : Tracks store stored files) (hGrows : Grows files files') :
    Tracks store stored files' :=
  h.of_same hGrows.workDir (fun _ => hGrows.keeps) fun _ _ _ _ => hGrows.file_iff

/-- The order in which the file system lists its files does not matter to the keys of a directory. -/
theorem reordered (hTree : files.WellFormed) (h : Tracks store stored files)
    (hOrder : Reordered files files') : Tracks store stored files' :=
  h.of_same hOrder.1 (fun l hDir => (hOrder.lookup_eq hTree l).trans hDir)
    fun _ _ _ _ => by rw [hOrder.lookup_eq hTree]

/-- A file that is no key file may be written. -/
theorem insert_other (h : Tracks store stored files) (hNode : files.lookup loc ≠ some .directory)
    (hOther : ∀ name, canHandle name = true → loc ≠ files.destination store.dir ++ [name])
    (content : ByteArray) (mode : Nat) :
    Tracks store stored (files.insert loc (.file content mode)) := by
  have hRoot := ne_root_of_lookup hNode
  refine of_same ?_ (fun l hDir => ?_) (fun name content' mode' hHandled => ?_) h
  · rfl
  · rw [lookup_insert _ _ hRoot, if_neg fun hLoc : l = loc => hNode (hLoc ▸ hDir), hDir]
  · rw [lookup_insert _ _ hRoot, if_neg (hOther name hHandled).symm]

/-- The file of a key is put in its place. -/
theorem insert_key (h : Tracks store stored files) (key : ParsedKey)
    (hPath : files.resolve (store.pathOf (fileName key.1.id)) = .ok (store.fileLocation files key.1.id))
    (hNode : files.lookup (store.fileLocation files key.1.id) ≠ some .directory) (mode : Nat) :
    Tracks store ((added key).update stored)
      (files.insert (store.fileLocation files key.1.id) (.file key.1.secret mode)) := by
  have hRoot := ne_root_of_lookup hNode
  -- both directions ask whether it is the new file or one that was there
  refine ⟨fun name content mode' hHandled hFile => ?_, fun id other hOther => ?_⟩
  · rw [destination_insert, lookup_insert _ _ hRoot] at hFile
    split at hFile
    · rename_i hName
      rw [fileLocation, List.append_cancel_left_eq, List.singleton_inj] at hName
      obtain ⟨rfl, -⟩ := Node.file.inj (Option.some.inj hFile)
      exact ⟨key, by simp [KeyDeed.update], hName, rfl⟩
    · rename_i hName
      obtain ⟨other, hStored, rfl, rfl⟩ := h.sound name content mode' hHandled hFile
      have hId : other.1.id ≠ key.1.id := fun hId => hName (by rw [fileLocation, hId])
      exact ⟨other, by rw [KeyDeed.update, if_neg hId, hStored], rfl, rfl⟩
  · rw [KeyDeed.update] at hOther
    rw [fileLocation_insert]
    split at hOther
    · rename_i hId
      obtain rfl := Option.some.inj hOther
      subst hId
      refine ⟨key, rfl, rfl, resolve_insert hNode hPath, mode, ?_⟩
      rw [lookup_insert _ _ hRoot, if_pos rfl]
    · rename_i hId
      obtain ⟨parsed, rfl, hParsed, hPath', mode', hFile⟩ := h.complete id other hOther
      refine ⟨parsed, rfl, hParsed, resolve_insert hNode hPath', mode', ?_⟩
      rw [lookup_insert _ _ hRoot, if_neg fun hLoc => hId (fileLocation_inj hLoc), hFile]

/-- The file of a key is taken away. -/
theorem erase_key (h : Tracks store stored files) (key : ParsedKey)
    (hNode : files.lookup (store.fileLocation files key.1.id) ≠ some .directory) :
    Tracks store ((removed key).update stored)
      (files.erase (store.fileLocation files key.1.id)) := by
  have hRoot := ne_root_of_lookup hNode
  refine ⟨fun name content mode hHandled hFile => ?_, fun id other hOther => ?_⟩
  · rw [destination_erase, lookup_erase _ hRoot] at hFile
    split at hFile
    · cases hFile
    · rename_i hName
      obtain ⟨other, hStored, rfl, rfl⟩ := h.sound name content mode hHandled hFile
      have hId : other.1.id ≠ key.1.id := fun hId => hName (by rw [fileLocation, hId])
      exact ⟨other, by rw [KeyDeed.update, if_neg hId, hStored], rfl, rfl⟩
  · rw [KeyDeed.update] at hOther
    rw [fileLocation_erase]
    split at hOther
    · cases hOther
    · rename_i hId
      obtain ⟨parsed, rfl, hParsed, hPath', mode', hFile⟩ := h.complete id other hOther
      refine ⟨parsed, rfl, hParsed, resolve_erase hRoot hNode hPath', mode', ?_⟩
      rw [lookup_erase _ hRoot, if_neg fun hLoc => hId (fileLocation_inj hLoc), hFile]

/-- A key whose file is not there is not stored. -/
theorem removed_missing (h : Tracks store stored files) (key : ParsedKey)
    (hMissing : files.has (store.pathOf (fileName key.1.id)) = false) :
    (removed key).update stored = stored := by
  funext id
  rw [KeyDeed.update]
  split
  · rename_i hId
    cases hStored : stored id with
    | none => rfl
    | some other =>
        obtain ⟨-, -, -, hPath, mode, hFile⟩ := h.complete id other hStored
        rw [has, ← hId, stat_of_resolve hPath, hFile] at hMissing
        cases hMissing
  · rfl

/-! ### Reading -/

/-- The files that are read are the key files of the directory. -/
theorem mem_keyFiles {found : List (String × ByteArray)} (hTree : files.WellFormed)
    (hDir : files.resolve store.dir = .ok loc) (h : store.keyFiles files = .ok found)
    {name : String} {content : ByteArray} : (name, content) ∈ found ↔
      canHandle name = true ∧ ∃ mode, files.lookup (loc ++ [name]) = some (.file content mode) := by
  rw [keyFiles, hDir, Except.ok.injEq] at h
  subst h
  rw [List.mem_filterMap]
  constructor
  · rintro ⟨⟨name', node⟩, hChild, hFile⟩
    cases node with
    | directory => simp at hFile
    | file content' mode =>
        simp only [Option.ite_none_right_eq_some, Option.some.injEq, Prod.mk.injEq] at hFile
        obtain ⟨hHandled, rfl, rfl⟩ := hFile
        exact ⟨hHandled, mode, hTree.mem_children_iff.1 hChild⟩
  · rintro ⟨hHandled, mode, hFile⟩
    exact ⟨(name, .file content mode), hTree.mem_children_iff.2 hFile, by simp [hHandled]⟩

/-- No name is listed twice. -/
theorem nodup_keyFiles {found : List (String × ByteArray)} (hTree : files.WellFormed)
    (hDir : files.resolve store.dir = .ok loc) (h : store.keyFiles files = .ok found) :
    (found.map (·.1)).Nodup := by
  rw [keyFiles, hDir, Except.ok.injEq] at h
  subst h
  have hOnce := hTree.nodup_children loc
  rw [List.Nodup, List.pairwise_map] at hOnce ⊢
  refine hOnce.filterMap _ fun child child' hNe file hFile file' hFile' hName => hNe ?_
  obtain ⟨name, node⟩ := child
  obtain ⟨name', node'⟩ := child'
  cases node <;> cases node' <;> simp at hFile hFile'
  rw [← hFile.2, ← hFile'.2] at hName
  exact hName

/-- A list whose members are values of a function is a mapped list. -/
theorem exists_map {α β : Type} {f : α → β} {p : α → Prop} {ys : List β}
    (h : ∀ y ∈ ys, ∃ x, p x ∧ f x = y) : ∃ xs : List α, ys = xs.map f ∧ ∀ x ∈ xs, p x := by
  induction ys with
  | nil => exact ⟨[], rfl, by simp⟩
  | cons y ys ih =>
      obtain ⟨x, hx, rfl⟩ := h y List.mem_cons_self
      obtain ⟨xs, rfl, hxs⟩ := ih fun y hy => h y (List.mem_cons_of_mem _ hy)
      exact ⟨x :: xs, rfl, by simpa [hx] using hxs⟩

/-- In whatever order the directory lists its files, just the stored keys are read, each once. -/
theorem all_eq (hTree : files.WellFormed) (h : Tracks store stored files)
    (hDir : files.resolve store.dir = .ok loc) (hMade : files.lookup loc = some .directory) :
    ∃ keys : List ParsedKey, store.all files = .ok (keys.map (·.1)) ∧
      (keys.map fun key => key.1.id).Nodup ∧ ∀ key, key ∈ keys ↔ stored key.1.id = some key.1 := by
  have hRequired : store.requireDir files = .ok () := by
    rw [requireDir, isDirectory, stat_of_resolve hDir, hMade]
    rfl
  obtain ⟨found, hFound⟩ : ∃ found, store.keyFiles files = .ok found := by
    rw [keyFiles, hDir]
    exact ⟨_, rfl⟩
  obtain rfl := destination_of_resolve hDir
  have hMem {name : String} {content : ByteArray} : (name, content) ∈ found ↔ canHandle name = true ∧
      ∃ mode, files.lookup (files.destination store.dir ++ [name]) = some (.file content mode) :=
    mem_keyFiles hTree hDir hFound
  -- every listed file is the file of a stored key, so the listing is a list of keys
  obtain ⟨keys, rfl, hKeys⟩ : ∃ keys : List ParsedKey,
      found = keys.map (fun key => (fileName key.1.id, key.1.secret)) ∧
        ∀ key ∈ keys, stored key.1.id = some key.1 := by
    refine exists_map fun file hFile => ?_
    obtain ⟨hHandled, mode, hThere⟩ := hMem.1 hFile
    obtain ⟨key, hKey, hName, hContent⟩ := h.sound _ _ _ hHandled hThere
    exact ⟨key, hKey, by rw [← hName, ← hContent]⟩
  refine ⟨keys, ?_, ?_, fun key => ⟨hKeys key, fun hKey => ?_⟩⟩
  · rw [all, hRequired, hFound]
    exact Holds.mapM_readKey store keys
  · have hNames := nodup_keyFiles hTree hDir hFound
    rw [List.map_map] at hNames
    rw [List.Nodup, List.pairwise_map] at hNames ⊢
    exact hNames.imp fun hNe hId => hNe (congrArg fileName hId)
  · obtain ⟨-, -, -, -, mode, hFile⟩ := h.complete _ _ hKey
    obtain ⟨other, hOther, hEntry⟩ := List.mem_map.1
      (hMem.2 ⟨canHandle_fileName key.isValid_id, mode, hFile⟩)
    have hId : other.1.id = key.1.id := fileName_inj (congrArg Prod.fst hEntry)
    have hSame : other = key := by
      have := hKeys other hOther
      rw [hId, hKey] at this
      exact Subtype.ext (Option.some.inj this).symm
    exact hSame ▸ hOther

/-- Keys are only read from a directory that is there. -/
theorem of_all_eq_ok {keys : List KeyPair} (h : store.all files = .ok keys) :
    ∃ loc, files.resolve store.dir = .ok loc ∧ files.lookup loc = some .directory := by
  obtain ⟨⟨⟩, hDir, -⟩ := bind_eq_ok.1 h
  exact requireDir_eq_ok.1 hDir

end Tracks

end VaultSync.KeyStore
