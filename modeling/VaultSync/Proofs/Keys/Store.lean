import VaultSync.Proofs.Keys.Fingerprint

/-! A directory of keys as a finite map from ids to keys. Files are written and removed by name but found
by the id that their content gives; both agree because every file of the directory is named for the key
in it. -/
namespace VaultSync.KeyStore

open Files

/-! ### Directories of keys -/

/-- A store whose directory has a name, and a path short enough for the key files below it. -/
structure Roomy (store : KeyStore) : Prop where
  named : ∃ parts name, Text.splitOnChar '/' store.dir = parts ++ [name] ∧ IsName name
  short : store.dir.utf8ByteSize + fileRoom KeyPair.idLength ≤ maxPathBytes

/-- The file that a key has in its directory. -/
def fileOf (key : ParsedKey) : String × Node :=
  (fileName key.1.id, .file key.1.secret fileMode)

/-- No directory was made, and nothing else lies in its place. -/
structure Unmade (store : KeyStore) (loc : Location) (files : Files) : Prop where
  resolved : files.resolve store.dir = .ok loc
  empty : ∀ e ∈ files.entries, ¬ loc <+: e.1

/-- The directory holds the file of each key of a list, and nothing else at any depth. -/
structure Holds (store : KeyStore) (loc : Location) (files : Files) (keys : List ParsedKey) : Prop where
  resolved : files.resolve store.dir = .ok loc
  made : files.lookup loc = some .directory
  children : files.children loc = keys.map fileOf
  shallow : ∀ e ∈ files.entries, loc <+: e.1 → e.1.length ≤ loc.length + 1
  nodup : (keys.map fun key => key.1.id).Nodup

variable {store : KeyStore} {loc : Location} {files : Files} {keys : List ParsedKey}

theorem inData_named (dataDir : String) :
    ∃ parts, Text.splitOnChar '/' (inData dataDir).dir = parts ++ ["keys"] := by
  have hKeys : Text.splitOnChar '/' "keys" = ["keys"] := Text.splitOnChar_of_notMem (by decide)
  exact hKeys ▸ Path.splitOnChar_join dataDir "keys"

theorem inData_isNamed (dataDir : String) :
    ∃ parts name, Text.splitOnChar '/' (inData dataDir).dir = parts ++ [name] ∧ IsName name := by
  obtain ⟨parts, hParts⟩ := inData_named dataDir
  exact ⟨parts, "keys", hParts, by unfold IsName; decide⟩

/-- Enough room below the data directory is room for every derived id. -/
theorem inData_roomy {dataDir : String}
    (h : (inData dataDir).dir.utf8ByteSize + fileRoom KeyPair.idLength ≤ maxPathBytes) :
    Roomy (inData dataDir) :=
  ⟨inData_isNamed dataDir, h⟩

section Named

variable (h : ∃ parts name, Text.splitOnChar '/' store.dir = parts ++ [name] ∧ IsName name)

include h in
theorem splitOnChar_dir_ne (front : List String) : Text.splitOnChar '/' store.dir ≠ front ++ [""] := by
  obtain ⟨parts, last, hParts, hLast⟩ := h
  intro hFront
  rw [hParts] at hFront
  exact hLast.1 (List.singleton_inj.1 (List.append_inj_right' hFront rfl))

include h in
theorem dir_ne_empty : store.dir ≠ "" := by
  have hNone : Text.splitOnChar '/' "" = [""] := Text.splitOnChar_of_notMem (by decide)
  intro hEmpty
  exact splitOnChar_dir_ne h [] (by rw [hEmpty, hNone, List.nil_append])

include h in
/-- The path of a key file is the path of the directory, a slash and the name. -/
theorem pathOf_eq {name : String} (hSlash : '/' ∉ name.toList) :
    store.pathOf name = store.dir ++ "/" ++ name := by
  have hRelative : Path.isAbsolute name = false := by
    simpa [Path.isAbsolute] using fun hHead => hSlash (List.mem_of_mem_head? hHead)
  have hNone : Text.splitOnChar '/' "" = [""] := Text.splitOnChar_of_notMem (by decide)
  have hEnd : store.dir.toList.getLast? ≠ some '/' := by
    intro hEnd
    obtain ⟨front, hFront⟩ := List.getLast?_eq_some_iff.1 hEnd
    have hSplit : store.dir = String.ofList front ++ "/" ++ "" := by
      rw [← String.toList_inj]
      simp [hFront]
    exact splitOnChar_dir_ne h _ (by rw [hSplit, Text.splitOnChar_slash, hNone])
  rw [pathOf, Path.join, hRelative, Bool.false_or, if_neg (by simpa using dir_ne_empty h), if_neg hEnd]

include h in
/-- The path of a key file starts where the path of the directory does. -/
theorem start_pathOf {name : String} (hSlash : '/' ∉ name.toList) :
    files.start (store.pathOf name) = files.start store.dir := by
  have hDirChars : store.dir.toList ≠ [] := by simpa using dir_ne_empty h
  obtain ⟨c, cs, hCons⟩ := List.exists_cons_of_ne_nil hDirChars
  simp [pathOf_eq h hSlash, start, Path.isAbsolute, hCons]

include h in
/-- The path of a file names a location directly in the directory, when it is not too long. -/
theorem resolve_pathOf {name : String} (hDir : files.resolve store.dir = .ok loc)
    (hMade : files.lookup loc = some .directory) (hName : IsName name) (hSlash : '/' ∉ name.toList)
    (hNul : '\x00' ∉ name.toList) (hSize : name.utf8ByteSize ≤ maxNameBytes)
    (hShort : store.dir.utf8ByteSize + 1 + name.utf8ByteSize ≤ maxPathBytes) :
    files.resolve (store.pathOf name) = .ok (loc ++ [name]) := by
  obtain ⟨hDirNul, -, -, hWalk⟩ := resolve_eq_ok.1 hDir
  have hStart : files.start (store.pathOf name) = files.start store.dir := start_pathOf h hSlash
  rw [pathOf_eq h hSlash] at hStart ⊢
  rw [resolve_eq_ok, hStart, Text.splitOnChar_slash, walk_append_eq_ok]
  refine ⟨?_, ?_, ?_, loc, hWalk, ?_⟩
  · simpa [hDirNul] using hNul
  · simp
  · rw [String.utf8ByteSize_append, String.utf8ByteSize_append]
    exact hShort
  · rw [Text.splitOnChar_of_notMem hSlash, walk_cons_eq_ok, next_name hName]
    exact ⟨hMade, fun _ => hSize, rfl⟩

end Named

namespace Roomy

/-- The path of a key file names a location directly in the directory. -/
theorem resolve_file (h : Roomy store) (hDir : files.resolve store.dir = .ok loc)
    (hMade : files.lookup loc = some .directory) (key : ParsedKey) :
    files.resolve (store.pathOf (fileName key.1.id)) = .ok (loc ++ [fileName key.1.id]) := by
  have hId := key.isValid_id
  have hSize : (fileName key.1.id).utf8ByteSize ≤ maxNameBytes := by
    rw [utf8ByteSize_fileName hId, key.length_id]
    decide
  have hRoom := one_add_utf8ByteSize_fileName hId
  rw [key.length_id] at hRoom
  refine resolve_pathOf h.named hDir hMade (isName_fileName _) (slash_notMem_fileName hId)
    (nul_notMem_fileName hId) hSize ?_
  rw [Nat.add_assoc, hRoom]
  exact h.short

end Roomy

/-! ### Adding and removing -/

/-- A valid id has its key file in the directory. -/
theorem keyFile_of_isValid {id : String} (h : KeyId.isValid id = true) :
    store.keyFile id = .ok (store.pathOf (fileName id)) := by
  rw [keyFile, KeyId.validate, h]
  rfl

/-- An id that is not valid has no key file. -/
theorem keyFile_of_not_isValid {id : String} (h : KeyId.isValid id = false) :
    store.keyFile id = .error (.invalidKeyId id) := by
  rw [keyFile, KeyId.validate, h]
  rfl

/-- The id of a parsed key is accepted as a file name. -/
theorem keyFile_eq (store : KeyStore) (key : ParsedKey) :
    store.keyFile key.1.id = .ok (store.pathOf (fileName key.1.id)) :=
  keyFile_of_isValid key.isValid_id

theorem mem_insert {entries : Location × Node} {other : Location} {node : Node} :
    entries ∈ (files.insert other node).entries ↔
      (entries ∈ files.entries ∧ entries.1 ≠ other) ∨ entries = (other, node) := by
  simp [Files.insert]

namespace Unmade

theorem loc_ne_root (hRoomy : Roomy store) (h : Unmade store loc files) : loc ≠ [] := by
  obtain ⟨parts, name, hParts, hName⟩ := hRoomy.named
  obtain ⟨-, -, -, hWalk⟩ := resolve_eq_ok.1 h.resolved
  rw [hParts] at hWalk
  obtain ⟨parent, -, hLast⟩ := walk_append_eq_ok.1 hWalk
  obtain ⟨-, -, hEnd⟩ := walk_cons_eq_ok.1 hLast
  obtain rfl : parent ++ [name] = loc := by simpa [walk, next_name hName] using hEnd
  simp

theorem lookup_eq_none (hRoomy : Roomy store) (h : Unmade store loc files) : files.lookup loc = none := by
  rw [lookup_of_ne_root (h.loc_ne_root hRoomy), List.lookup_eq_none_iff]
  intro e hEntry
  exact bne_iff_ne.2 fun hLoc => h.empty e hEntry (hLoc ▸ List.prefix_rfl)

theorem children_eq_nil (h : Unmade store loc files) : files.children loc = [] := by
  rw [children_eq, List.filterMap_eq_nil_iff]
  intro e hEntry
  cases hChild : child? loc e with
  | none => rfl
  | some child =>
      refine absurd ?_ (h.empty e hEntry)
      rw [child?_eq_some.1 hChild]
      exact List.prefix_append _ _

/-- Making the directory leaves it empty. -/
theorem makes (hRoomy : Roomy store) (h : Unmade store loc files) :
    files.createDirAll store.dir = (.ok (), files.insert loc .directory) ∧
      Holds store loc (files.insert loc .directory) [] := by
  obtain ⟨parts, name, hParts, hName⟩ := hRoomy.named
  have hRoot := h.loc_ne_root hRoomy
  have hMissing := h.lookup_eq_none hRoomy
  refine ⟨createDirAll_missing h.resolved hParts hName hMissing, ?_, ?_, ?_, ?_, ?_⟩
  · exact resolve_insert (by simp [hMissing]) h.resolved
  · rw [lookup_insert _ _ hRoot, if_pos rfl]
  · rw [children_insert_of_ne _ _ fun name hEq => by simpa using congrArg List.length hEq,
      h.children_eq_nil, List.map_nil]
  · intro e hEntry hBelow
    rcases mem_insert.1 hEntry with ⟨hOld, -⟩ | rfl
    · exact absurd hBelow (h.empty e hOld)
    · simp
  · exact List.nodup_nil

end Unmade

namespace Holds

/-- What lies under the name of a key file. -/
theorem lookup_file (h : Holds store loc files keys) (id : String) :
    files.lookup (loc ++ [fileName id]) =
      (keys.find? fun key => key.1.id = id).map fun key => .file key.1.secret fileMode := by
  rw [← lookup_children, h.children]
  clear h
  induction keys with
  | nil => rfl
  | cons key keys ih =>
      rw [List.map_cons, List.lookup_cons, List.find?_cons]
      by_cases hId : key.1.id = id
      · simp [fileOf, hId]
      · have hName : fileName id ≠ fileName key.1.id := fun hName => hId (fileName_inj hName).symm
        rw [show (fileOf key).1 = fileName key.1.id from rfl, beq_false_of_ne hName, ih]
        simp [hId]

theorem lookup_file_ne_directory (h : Holds store loc files keys) (id : String) :
    files.lookup (loc ++ [fileName id]) ≠ some .directory := by
  rw [h.lookup_file]
  cases keys.find? fun key => key.1.id = id <;> simp

/-- Taking the keys of an id away takes away the files of its name. -/
theorem filter_files (name : String) :
    (keys.map fileOf).filter (·.1 ≠ fileName name) = (keys.filter fun key => key.1.id ≠ name).map fileOf := by
  rw [List.filter_map]
  refine congrArg (List.map fileOf) (List.filter_congr fun key _ => ?_)
  have hName : fileName key.1.id = fileName name ↔ key.1.id = name := ⟨fileName_inj, congrArg fileName⟩
  simp [fileOf, hName]

/-- The directory after a key was written. -/
theorem insert_file (h : Holds store loc files keys) (key : ParsedKey) :
    Holds store loc (files.insert (loc ++ [fileName key.1.id]) (.file key.1.secret fileMode))
      (keys.filter (fun other => other.1.id ≠ key.1.id) ++ [key]) := by
  have hRoot : loc ++ [fileName key.1.id] ≠ [] := by simp
  refine ⟨resolve_insert (h.lookup_file_ne_directory _) h.resolved, ?_, ?_, ?_, ?_⟩
  · rw [lookup_insert _ _ hRoot, if_neg (by simp), h.made]
  · rw [children_insert, h.children, filter_files, List.map_append]
    rfl
  · intro e hEntry hBelow
    rcases mem_insert.1 hEntry with ⟨hOld, -⟩ | rfl
    · exact h.shallow e hOld hBelow
    · simp
  · rw [List.map_append, List.nodup_append]
    refine ⟨(h.nodup.sublist (List.filter_sublist.map _)), by simp, ?_⟩
    intro id hId id' hId'
    obtain ⟨other, hOther, rfl⟩ := List.mem_map.1 hId
    rw [List.map_singleton, List.mem_singleton] at hId'
    rw [hId']
    simpa using (List.mem_filter.1 hOther).2

/-- The directory after a key was taken away. -/
theorem erase_file (h : Holds store loc files keys) (id : String) :
    Holds store loc (files.erase (loc ++ [fileName id])) (keys.filter fun key => key.1.id ≠ id) := by
  have hRoot : loc ++ [fileName id] ≠ [] := by simp
  refine ⟨resolve_erase hRoot (h.lookup_file_ne_directory _) h.resolved, ?_, ?_, ?_, ?_⟩
  · rw [lookup_erase _ hRoot, if_neg (by simp), h.made]
  · rw [children_erase, h.children, filter_files]
  · intro e hEntry hBelow
    exact h.shallow e ((List.mem_filter.1 hEntry).1) hBelow
  · exact h.nodup.sublist (List.filter_sublist.map _)

/-- A store that holds keys takes another one, in place of one with its id. -/
theorem add_eq (hRoomy : Roomy store) (h : Holds store loc files keys) (key : ParsedKey) :
    store.add key.1 files =
      (.ok key.1.id, files.insert (loc ++ [fileName key.1.id]) (.file key.1.secret fileMode)) := by
  have hReplace : files.replace (store.pathOf (fileName key.1.id)) key.1.secret fileMode =
      .ok (files.insert (loc ++ [fileName key.1.id]) (.file key.1.secret fileMode)) := by
    rw [replace, hRoomy.resolve_file h.resolved h.made key]
    have hNode := h.lookup_file_ne_directory key.1.id
    cases hLookup : files.lookup (loc ++ [fileName key.1.id]) with
    | none => simp [bind, Except.bind, hLookup]
    | some node =>
        cases node with
        | directory => exact absurd hLookup hNode
        | file content mode => simp [bind, Except.bind, hLookup]
  rw [add, keyFile_eq]
  simp only [createDirAll_made h.resolved h.made, hReplace]

/-- A store that holds keys gives up those of an id. -/
theorem remove_eq (hRoomy : Roomy store) (h : Holds store loc files keys) (key : ParsedKey) :
    ∃ files', store.remove key.1 files = (.ok key.1.id, files') ∧
      Holds store loc files' (keys.filter fun other => other.1.id ≠ key.1.id) := by
  have hRequired : store.requireDir files = .ok () := by
    rw [requireDir, isDirectory, stat_of_resolve h.resolved, h.made]
    rfl
  have hResolved := hRoomy.resolve_file h.resolved h.made key
  have hStat := stat_of_resolve hResolved
  rw [remove, hRequired, keyFile_eq]
  -- without a key of the id there is no file to remove, and no key to take off the list
  cases hFind : keys.find? fun other => other.1.id = key.1.id with
  | none =>
      have hMissing : files.lookup (loc ++ [fileName key.1.id]) = none := by
        rw [h.lookup_file, hFind]
        rfl
      have hKeys : keys.filter (fun other => other.1.id ≠ key.1.id) = keys := by
        rw [List.filter_eq_self]
        intro other hOther
        simpa using List.find?_eq_none.1 hFind other hOther
      refine ⟨files, ?_, hKeys.symm ▸ h⟩
      simp [has, hStat, hMissing, Except.isOk, Except.toBool]
  | some other =>
      have hThere : files.lookup (loc ++ [fileName key.1.id]) =
          some (.file other.1.secret fileMode) := by
        rw [h.lookup_file, hFind]
        rfl
      have hGone : files.removeFile (store.pathOf (fileName key.1.id)) =
          .ok (files.erase (loc ++ [fileName key.1.id])) := by
        rw [removeFile, hResolved]
        simp [bind, Except.bind, hThere]
      refine ⟨_, ?_, h.erase_file key.1.id⟩
      simp [has, hStat, hThere, Except.isOk, Except.toBool, hGone]

end Holds

namespace Unmade

/-- The first key makes the directory. -/
theorem add_eq (hRoomy : Roomy store) (h : Unmade store loc files) (key : ParsedKey) :
    ∃ files', store.add key.1 files = (.ok key.1.id, files') ∧ Holds store loc files' [key] := by
  obtain ⟨hMakes, hHolds⟩ := h.makes hRoomy
  have hAdded := hHolds.add_eq hRoomy key
  refine ⟨_, ?_, hHolds.insert_file key⟩
  rw [add, keyFile_eq] at hAdded ⊢
  simp only [createDirAll_made hHolds.resolved hHolds.made] at hAdded
  simp only [hMakes, hAdded]

/-- Before the directory is made, an action that needs it fails. -/
theorem requireDir_eq (hRoomy : Roomy store) (h : Unmade store loc files) :
    store.requireDir files = .error (.keyDirMissing store.dir) := by
  rw [requireDir, isDirectory, stat_of_resolve h.resolved, h.lookup_eq_none hRoomy]
  rfl

/-- Before the directory is made there is nothing to remove from. -/
theorem remove_eq (hRoomy : Roomy store) (h : Unmade store loc files) (key : KeyPair) :
    store.remove key files = (.error (.keyDirMissing store.dir), files) := by
  rw [remove, h.requireDir_eq hRoomy]

end Unmade

/-! ### Reading -/

namespace Holds

theorem requireDir_eq (h : Holds store loc files keys) : store.requireDir files = .ok () := by
  rw [requireDir, isDirectory, stat_of_resolve h.resolved, h.made]
  rfl

/-- Every key of the list is found, and no other file. -/
theorem keyFiles_eq (h : Holds store loc files keys) :
    store.keyFiles files = .ok (keys.map fun key => (fileName key.1.id, key.1.secret)) := by
  rw [keyFiles, h.resolved]
  simp only [h.children, List.filterMap_map]
  rw [← List.filterMap_eq_map]
  congr 2
  funext key
  simp [fileOf, canHandle_fileName key.isValid_id]

theorem readKey_file (store : KeyStore) (key : ParsedKey) (name : String) :
    store.readKey (name, key.1.secret) = .ok key.1 := by
  rw [readKey, key.ofFile_secret]

/-- A search through the files of keys is a search through the keys. -/
theorem findKey_eq (store : KeyStore) (id : String) (keys : List ParsedKey) :
    store.findKey id (keys.map fun key => (fileName key.1.id, key.1.secret)) =
      (keys.find? fun key => key.1.id = id).elim (.error (.keyNotFound id)) fun key => .ok key.1 := by
  induction keys with
  | nil => rfl
  | cons key keys ih =>
      rw [List.map_cons, findKey, readKey_file, List.find?_cons]
      by_cases hId : key.1.id = id
      · simp [hId]
      · simpa [hId] using ih

/-- A key is got by its id exactly when the list has one. -/
theorem get_eq (h : Holds store loc files keys) (id : String) :
    store.get id files =
      if keys = [] then .error (.keyDirEmpty store.dir)
      else (keys.find? fun key => key.1.id = id).elim (.error (.keyNotFound id)) fun key => .ok key.1 := by
  rw [get, h.requireDir_eq, h.keyFiles_eq, ← findKey_eq store]
  simp only [bind, Except.bind, List.isEmpty_map, List.isEmpty_iff]

/-- The files of keys are read as these keys. -/
theorem mapM_readKey (store : KeyStore) (keys : List ParsedKey) :
    (keys.map fun key => (fileName key.1.id, key.1.secret)).mapM store.readKey =
      .ok (keys.map (·.1)) := by
  induction keys with
  | nil => rfl
  | cons key keys ih =>
      rw [List.map_cons, List.mapM_cons, readKey_file, ih]
      rfl

/-- All keys of a store that holds keys are these keys. -/
theorem all_eq (h : Holds store loc files keys) : store.all files = .ok (keys.map (·.1)) := by
  rw [all, h.requireDir_eq, h.keyFiles_eq]
  exact mapM_readKey store keys

end Holds

end VaultSync.KeyStore
