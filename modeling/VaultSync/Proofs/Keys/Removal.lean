import Mathlib.Data.List.Basic
import Mathlib.Data.Set.List
import VaultSync.Proofs.Keys.Directory
import VaultSync.Proofs.Keys.Recipient

/-! Removing a key from a directory that others write to as well. A removal goes by the name of the file and
a search by what the files hold, so a removed key is found again exactly when another file gives it. -/
namespace VaultSync.KeyStore

open Files

variable {store : KeyStore} {files files' : Files} {loc : Location} {key : KeyPair} {id : String}
  {found : List (String × ByteArray)}

/-- A file that gives a key of an id, whatever its name. -/
def Gives (id : String) (file : String × ByteArray) : Prop :=
  ∃ key, KeyPair.ofFile file.2 = .ok key ∧ key.id = id

/-! ### Searching -/

/-- A listed file is read as a key exactly when its bytes are one. -/
theorem readKey_eq_ok {file : String × ByteArray} :
    store.readKey file = .ok key ↔ KeyPair.ofFile file.2 = .ok key := by
  rw [readKey]
  cases hFile : KeyPair.ofFile file.2 with
  | ok other => simp
  | error e => cases e <;> simp

/-- A search ends at the first file that gives the id, if all files before it hold keys. -/
theorem findKey_ok_iff : (∃ key, store.findKey id found = .ok key) ↔
    ∃ front file rest, found = front ++ file :: rest ∧ Gives id file ∧
      ∀ other ∈ front, ∃ key, KeyPair.ofFile other.2 = .ok key ∧ key.id ≠ id := by
  -- the search passes over readable keys of other ids and stops at the first other file
  induction found with
  | nil => simp [findKey]
  | cons file found ih =>
      rw [findKey]
      cases hRead : store.readKey file with
      | error e =>
          have hNone (key : KeyPair) : KeyPair.ofFile file.2 ≠ .ok key := fun hFile => by
            rw [readKey_eq_ok.2 hFile] at hRead
            cases hRead
          refine ⟨by simp, ?_⟩
          rintro ⟨front, last, rest, hFound, ⟨key, hKey, -⟩, hFront⟩
          cases front with
          | nil => exact absurd ((List.cons.inj hFound).1 ▸ hKey) (hNone key)
          | cons first front =>
              obtain ⟨other, hOther, -⟩ := hFront first List.mem_cons_self
              exact absurd ((List.cons.inj hFound).1 ▸ hOther) (hNone other)
      | ok key =>
          have hFile := readKey_eq_ok.1 hRead
          by_cases hId : key.id = id
          · simp only [hId, if_true]
            exact ⟨fun _ => ⟨[], file, found, rfl, ⟨key, hFile, hId⟩, by simp⟩, fun _ => ⟨key, rfl⟩⟩
          · simp only [hId, if_false, ih]
            constructor
            · rintro ⟨front, last, rest, rfl, hLast, hFront⟩
              refine ⟨file :: front, last, rest, rfl, hLast, fun other hOther => ?_⟩
              rcases List.mem_cons.1 hOther with rfl | hOther
              · exact ⟨key, hFile, hId⟩
              · exact hFront other hOther
            · rintro ⟨front, last, rest, hFound, ⟨other, hOther, hSame⟩, hFront⟩
              cases front with
              | nil =>
                  rw [← (List.cons.inj hFound).1, hFile, Except.ok.injEq] at hOther
                  exact absurd (hOther ▸ hSame) hId
              | cons first front =>
                  exact ⟨front, last, rest, (List.cons.inj hFound).2, ⟨other, hOther, hSame⟩,
                    fun file hFile => hFront file (List.mem_cons_of_mem _ hFile)⟩

/-- Reading all files gives a key for each of them. -/
theorem mapM_readKey_eq_ok {keys : List KeyPair} :
    found.mapM store.readKey = .ok keys ↔ found.map (KeyPair.ofFile ·.2) = keys.map .ok := by
  induction found generalizing keys with
  | nil =>
      rw [List.mapM_nil, List.map_nil, eq_comm, eq_comm (a := []), List.map_eq_nil_iff]
      exact ⟨Except.ok.inj, congrArg _⟩
  | cons file found ih =>
      rw [List.mapM_cons, List.map_cons, @eq_comm _ (_ :: _), List.map_eq_cons_iff]
      cases hRead : store.readKey file with
      | error e =>
          refine iff_of_false (fun h => nomatch h) ?_
          rintro ⟨key, rest, -, hKey, -⟩
          rw [readKey_eq_ok.2 hKey.symm] at hRead
          cases hRead
      | ok key =>
          rw [readKey_eq_ok.1 hRead]
          cases hRest : found.mapM store.readKey with
          | error e =>
              refine iff_of_false (fun h => nomatch h) ?_
              rintro ⟨other, rest, -, -, hKeys⟩
              rw [ih.2 hKeys.symm] at hRest
              cases hRest
          | ok rest =>
              refine ⟨fun h => ⟨key, rest, (Except.ok.inj h).symm, rfl, (ih.1 hRest).symm⟩, ?_⟩
              rintro ⟨other, rest', rfl, hOther, hKeys⟩
              rw [ih.2 hKeys.symm, Except.ok.injEq] at hRest
              rw [Except.ok.inj hOther, hRest]
              rfl

/-- A key is got by an id when a search of the key files ends at one that gives it. -/
theorem get_ok_iff (hRequired : store.requireDir files = .ok ())
    (hFound : store.keyFiles files = .ok found) : (∃ key, store.get id files = .ok key) ↔
      ∃ front file rest, found = front ++ file :: rest ∧ Gives id file ∧
        ∀ other ∈ front, ∃ key, KeyPair.ofFile other.2 = .ok key ∧ key.id ≠ id := by
  refine Iff.trans ?_ (@findKey_ok_iff store id found)
  rw [get, hRequired, hFound]
  cases found with
  | nil => simp [bind, Except.bind, findKey]
  | cons file found => rfl

/-- All keys are given when every key file holds one, and a key of an id is among them when one of the files
gives it. -/
theorem all_ok_iff (hRequired : store.requireDir files = .ok ())
    (hFound : store.keyFiles files = .ok found) :
    (∃ keys, store.all files = .ok keys ∧ ∃ key ∈ keys, key.id = id) ↔
      (∀ file ∈ found, ∃ key, KeyPair.ofFile file.2 = .ok key) ∧ ∃ file ∈ found, Gives id file := by
  have hAll : store.all files = found.mapM store.readKey := by
    rw [all, hRequired, hFound]
    rfl
  simp only [hAll, mapM_readKey_eq_ok]
  constructor
  · rintro ⟨keys, hKeys, key, hKey, hId⟩
    have hFile : Except.ok key ∈ found.map (KeyPair.ofFile ·.2) := hKeys ▸ List.mem_map_of_mem hKey
    obtain ⟨file, hFile, hGiven⟩ := List.mem_map.1 hFile
    refine ⟨fun file hFile => ?_, file, hFile, key, hGiven, hId⟩
    have hGiven : KeyPair.ofFile file.2 ∈ keys.map Except.ok := hKeys ▸ List.mem_map_of_mem hFile
    obtain ⟨other, -, hOther⟩ := List.mem_map.1 hGiven
    exact ⟨other, hOther.symm⟩
  · rintro ⟨hEach, file, hFile, key, hKey, hId⟩
    have hRange : found.map (KeyPair.ofFile ·.2) ∈ Set.range (List.map Except.ok) := by
      rw [Set.range_list_map, Set.mem_ofPred_eq, List.forall_mem_map]
      exact fun file hFile => (hEach file hFile).imp fun _ => Eq.symm
    obtain ⟨keys, hKeys⟩ := hRange
    have hGiven : KeyPair.ofFile file.2 ∈ keys.map Except.ok := hKeys ▸ List.mem_map_of_mem hFile
    rw [hKey, List.mem_map_of_injective fun _ _ => Except.ok.inj] at hGiven
    exact ⟨keys, hKeys.symm, key, hGiven, hId⟩

/-! ### Removing -/

section Named

variable (hNamed : ∃ parts name, Text.splitOnChar '/' store.dir = parts ++ [name] ∧ IsName name)

include hNamed in
/-- A key file can be reached by its name, as long as the name is that of a valid id. -/
theorem resolve_keyFile (hShort : store.dir.utf8ByteSize + fileRoom KeyId.maxLength ≤ maxPathBytes)
    (hDir : files.resolve store.dir = .ok loc) (hMade : files.lookup loc = some .directory)
    (hId : KeyId.isValid id = true) :
    files.resolve (store.pathOf (fileName id)) = .ok (loc ++ [fileName id]) := by
  have hLength : id.toList.length ≤ KeyId.maxLength := by
    rw [KeyId.isValid] at hId
    cases hChars : id.toList with
    | nil => simp
    | cons c rest =>
        simp only [hChars, Bool.and_eq_true, decide_eq_true_eq] at hId
        exact hId.2
  have hSize : (fileName id).utf8ByteSize ≤ maxNameBytes := by
    rw [utf8ByteSize_fileName hId, maxNameBytes]
    rw [KeyId.maxLength] at hLength
    omega
  refine resolve_pathOf hNamed hDir hMade (isName_fileName id) (slash_notMem_fileName hId)
    (nul_notMem_fileName hId) hSize ?_
  rw [Nat.add_assoc, one_add_utf8ByteSize_fileName hId]
  rw [fileRoom] at hShort ⊢
  omega

/-- The key files of a directory without one of its entries. -/
theorem keyFiles_of_children {name : String} (hDir : files.resolve store.dir = .ok loc)
    (hDir' : files'.resolve store.dir = .ok loc)
    (h : files'.children loc = (files.children loc).filter (·.1 ≠ name)) :
    ∃ found, store.keyFiles files = .ok found ∧
      store.keyFiles files' = .ok (found.filter (·.1 ≠ name)) := by
  rw [keyFiles, keyFiles, hDir, hDir']
  refine ⟨_, rfl, congrArg Except.ok ?_⟩
  rw [h, List.filterMap_filter, List.filter_filterMap]
  refine List.filterMap_congr fun child _ => ?_
  obtain ⟨other, node⟩ := child
  cases node with
  | directory => simp
  | file content mode =>
      by_cases hName : other = name
      · subst hName
        by_cases hHandled : canHandle other = true <;> simp [hHandled, Option.filter]
      · by_cases hHandled : canHandle other = true <;> simp [hHandled, hName, Option.filter]

include hNamed in
/-- After a removal the directory lists the key files that it listed before, except the one that is named
for the key. -/
theorem keyFiles_remove (hShort : store.dir.utf8ByteSize + fileRoom KeyId.maxLength ≤ maxPathBytes)
    (h : store.remove key files = (.ok id, files')) :
    store.requireDir files' = .ok () ∧ ∃ found, store.keyFiles files = .ok found ∧
      store.keyFiles files' = .ok (found.filter (·.1 ≠ fileName key.id)) := by
  have hCases := @remove_cases store files hNamed key
  rcases hCases with ⟨e, hRemove⟩ | ⟨hRequired, hId, ⟨hMissing, hRemove⟩ | ⟨hPath, hNode, hRemove⟩⟩
  · simp [hRemove] at h
  · -- the file of the key is not there, and so not among the listed ones either
    obtain rfl : files = files' := by simpa [hRemove] using congrArg Prod.snd h
    obtain ⟨loc, hDir, hMade⟩ := requireDir_eq_ok.1 hRequired
    refine ⟨hRequired, keyFiles_of_children hDir hDir (List.filter_eq_self.2 fun child hChild => ?_).symm⟩
    rw [has, stat_of_resolve (resolve_keyFile hNamed hShort hDir hMade hId)] at hMissing
    have hNone : files.lookup (loc ++ [fileName key.id]) = none := by
      cases hNode : files.lookup (loc ++ [fileName key.id]) with
      | none => rfl
      | some node =>
          rw [hNode] at hMissing
          cases hMissing
    rw [← lookup_children, List.lookup_eq_none_iff] at hNone
    have hOther := hNone child hChild
    simpa using fun hName : child.1 = fileName key.id => by simp [hName] at hOther
  · obtain rfl : files.erase (store.fileLocation files key.id) = files' := by
      simpa [hRemove] using congrArg Prod.snd h
    obtain ⟨loc, hDir, hMade⟩ := requireDir_eq_ok.1 hRequired
    have hRoot := ne_root_of_lookup hNode
    have hDir' := resolve_erase hRoot hNode hDir
    rw [fileLocation, destination_of_resolve hDir] at hNode hRoot hDir' ⊢
    refine ⟨requireDir_eq_ok.2 ⟨loc, hDir', ?_⟩, keyFiles_of_children hDir hDir' (children_erase _ _ _)⟩
    rw [lookup_erase _ hRoot, if_neg (by simp), hMade]

end Named

/-- A removed key is got again exactly when another key file gives it, and no file that holds no key is met
before. It is among all keys exactly when another key file gives it and every key file holds a key. Without
such a copy the key is gone. -/
theorem removed_unless_copied {dataDir : String}
    (hShort : (inData dataDir).dir.utf8ByteSize + fileRoom KeyId.maxLength ≤ maxPathBytes)
    (h : (inData dataDir).remove key files = (.ok id, files')) :
    ∃ found others, (inData dataDir).keyFiles files = .ok found ∧
      others = found.filter (·.1 ≠ fileName key.id) ∧
      ((∃ again, (inData dataDir).get key.id files' = .ok again) ↔
        ∃ front copy rest, others = front ++ copy :: rest ∧ Gives key.id copy ∧
          ∀ file ∈ front, ∃ other, KeyPair.ofFile file.2 = .ok other ∧ other.id ≠ key.id) ∧
      ((∃ keys, (inData dataDir).all files' = .ok keys ∧ ∃ again ∈ keys, again.id = key.id) ↔
        (∀ file ∈ others, ∃ other, KeyPair.ofFile file.2 = .ok other) ∧
          ∃ copy ∈ others, Gives key.id copy) := by
  obtain ⟨parts, hParts⟩ := inData_named dataDir
  obtain ⟨hRequired, found, hFound, hOthers⟩ :=
    keyFiles_remove ⟨parts, "keys", hParts, by unfold IsName; decide⟩ hShort h
  exact ⟨found, _, hFound, rfl, get_ok_iff hRequired hOthers, all_ok_iff hRequired hOthers⟩

/-- A data directory with a single key file, under some name. -/
def sole (name : String) (key : KeyPair) : Files :=
  ⟨[], [(["data"], .directory), (["data", "keys"], .directory),
    (["data", "keys", name], .file key.secret fileMode)]⟩

/-- A key in a file of its own name, without copies, is not got after its removal. -/
theorem removed_unless_copied_sole : ∃ key files',
    (inData "data").dir.utf8ByteSize + fileRoom KeyId.maxLength ≤ maxPathBytes ∧
    (inData "data").remove key (sole (fileName key.id) key) = (.ok key.id, files') ∧
    ¬ ∃ again, (inData "data").get key.id files' = .ok again := by
  obtain ⟨key⟩ : Nonempty ParsedKey := ⟨.ofIdentity ⟨Bytes.replicate 32 7⟩ rfl⟩
  have hHolds : Holds (inData "data") ["data", "keys"] (sole (fileName key.1.id) key.1) [key] :=
    { resolved := rfl
      made := rfl
      children := rfl
      shallow := by simp [sole]
      nodup := by simp }
  obtain ⟨files', hRemove, -⟩ := hHolds.remove_eq (inData_roomy (by decide)) key
  refine ⟨key.1, files', by decide, hRemove, ?_⟩
  obtain ⟨found, others, hFound, rfl, hGet, -⟩ := removed_unless_copied (by decide) hRemove
  have hSole : (inData "data").keyFiles (sole (fileName key.1.id) key.1) =
      .ok [(fileName key.1.id, key.1.secret)] := hHolds.keyFiles_eq
  obtain rfl := Except.ok.inj (hSole.symm.trans hFound)
  rw [hGet]
  simp

/-- The removal finds no file to remove, which counts as success. -/
theorem remove_renamed (key : ParsedKey) :
    (inData "data").remove key.1 (sole "copy.key" key.1) = (.ok key.1.id, sole "copy.key" key.1) := by
  have hDir : (sole "copy.key" key.1).resolve (inData "data").dir = .ok ["data", "keys"] := rfl
  have hName : fileName key.1.id ≠ "copy.key" := fun h => by
    have hLength := congrArg (·.toList.length) h
    rw [toList_fileName, List.length_append, key.length_id] at hLength
    exact absurd hLength (by decide)
  have hMissing : (sole "copy.key" key.1).has ((inData "data").pathOf (fileName key.1.id)) = false := by
    rw [has, stat_of_resolve ((inData_roomy (by decide)).resolve_file hDir rfl key)]
    simp [lookup, sole, List.lookup_cons, beq_false_of_ne hName, Except.isOk, Except.toBool]
  have hRequired : (inData "data").requireDir (sole "copy.key" key.1) = .ok () := rfl
  rw [remove, hRequired]
  simp only [keyFile_eq, hMissing, Bool.false_eq_true, if_false]

/-- A removed key is got again, and is among all keys, when its file goes by a name of its own. -/
theorem removed_key_found : ∃ key files',
    (inData "data").remove key (sole "copy.key" key) = (.ok key.id, files') ∧
    (inData "data").get key.id files' = .ok key ∧ (inData "data").all files' = .ok [key] := by
  obtain ⟨key⟩ : Nonempty ParsedKey := ⟨.ofIdentity ⟨Bytes.replicate 32 7⟩ rfl⟩
  have hRequired : (inData "data").requireDir (sole "copy.key" key.1) = .ok () := rfl
  have hFound : (inData "data").keyFiles (sole "copy.key" key.1) = .ok [("copy.key", key.1.secret)] := rfl
  have hRead : (inData "data").readKey ("copy.key", key.1.secret) = .ok key.1 :=
    readKey_eq_ok.2 key.ofFile_secret
  refine ⟨key.1, sole "copy.key" key.1, remove_renamed key, ?_, ?_⟩
  · rw [get, hRequired, hFound]
    simp [bind, Except.bind, findKey, hRead]
  · rw [all, hRequired, hFound]
    simp [bind, Except.bind, hRead, pure, Except.pure]

end VaultSync.KeyStore
