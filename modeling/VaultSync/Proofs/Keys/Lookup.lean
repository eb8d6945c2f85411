import VaultSync.Proofs.Keys.Listing
import VaultSync.Proofs.Keys.Removal

/-! The search for one key against the reading of all. Both go through the key files of the directory in its
order. The one stops at the first key of the id and the other does not stop, and either fails at the first
file that holds no key, with the same error. -/
namespace VaultSync

/-- Whatever a key file holds instead of a key, it is an invalid key. -/
theorem KeyPair.exists_invalid_of_ofFile {bytes : ByteArray} {e : VaultError}
    (h : KeyPair.ofFile bytes = .error e) : ∃ reason, e = KeyPair.invalid reason := by
  rw [KeyPair.ofFile] at h
  cases hIdentity : KeyPair.identityOf bytes with
  | ok identity =>
      rw [hIdentity] at h
      cases h
  | error e' =>
      obtain rfl : e' = e := by simpa [hIdentity, bind, Except.bind] using h
      rw [KeyPair.identityOf] at hIdentity
      split at hIdentity
      · exact ⟨_, (Except.error.inj hIdentity).symm⟩
      · split at hIdentity
        · exact ⟨_, (Except.error.inj hIdentity).symm⟩
        · split at hIdentity
          · cases hIdentity
          · exact ⟨_, (Except.error.inj hIdentity).symm⟩

namespace KeyStore

open Files

variable {store : KeyStore} {files : Files} {loc : Location} {id reason : String}
  {front rest : List (String × ByteArray)} {file : String × ByteArray} {keys : List KeyPair}

/-! ### Reading in order -/

/-- A file that holds no key is named in the error. -/
theorem readKey_invalid (h : KeyPair.ofFile file.2 = .error (KeyPair.invalid reason)) :
    store.readKey file = .error (.invalidKey (store.pathOf file.1) reason) := by
  rw [readKey, h]
  rfl

/-- Key files all hold keys, or there is a first one that holds none. -/
theorem reading_cases (found : List (String × ByteArray)) :
    (∃ keys : List KeyPair, found.map (KeyPair.ofFile ·.2) = keys.map .ok) ∨
    ∃ (front : List (String × ByteArray)) (file : String × ByteArray) (rest : List (String × ByteArray))
      (keys : List KeyPair) (reason : String), found = front ++ file :: rest ∧
      front.map (KeyPair.ofFile ·.2) = keys.map .ok ∧
      KeyPair.ofFile file.2 = .error (KeyPair.invalid reason) := by
  induction found with
  | nil => exact .inl ⟨[], rfl⟩
  | cons file found ih =>
      cases hFile : KeyPair.ofFile file.2 with
      | error e =>
          obtain ⟨reason, rfl⟩ := KeyPair.exists_invalid_of_ofFile hFile
          exact .inr ⟨[], file, found, [], reason, rfl, rfl, hFile⟩
      | ok key =>
          rcases ih with ⟨keys, hKeys⟩ | ⟨front, fault, rest, keys, reason, rfl, hKeys, hFault⟩
          · exact .inl ⟨key :: keys, by rw [List.map_cons, hFile, hKeys, List.map_cons]⟩
          · exact .inr ⟨file :: front, fault, rest, key :: keys, reason, rfl,
              by rw [List.map_cons, hFile, hKeys, List.map_cons], hFault⟩

/-- A search goes on behind files that hold keys of other ids. -/
theorem findKey_append (hKeys : front.map (KeyPair.ofFile ·.2) = keys.map .ok)
    (rest : List (String × ByteArray)) : store.findKey id (front ++ rest) =
      (keys.find? fun key => key.id = id).elim (store.findKey id rest) .ok := by
  induction front generalizing keys with
  | nil =>
      obtain rfl : keys = [] := by simpa using hKeys.symm
      rfl
  | cons file front ih =>
      cases keys with
      | nil => cases hKeys
      | cons key keys =>
          obtain ⟨hFile, hFront⟩ := List.cons.inj hKeys
          have hRead : store.readKey file = .ok key := readKey_eq_ok.2 hFile
          rw [List.cons_append, findKey, hRead]
          by_cases hId : key.id = id
          · simp [hId]
          · simp [hId, ih hFront]

/-- Reading all files ends at the first one that holds no key. -/
theorem mapM_readKey_of_invalid (hKeys : front.map (KeyPair.ofFile ·.2) = keys.map .ok)
    (hFile : KeyPair.ofFile file.2 = .error (KeyPair.invalid reason)) (rest : List (String × ByteArray)) :
    (front ++ file :: rest).mapM store.readKey =
      .error (.invalidKey (store.pathOf file.1) reason) := by
  have hFront : front.mapM store.readKey = .ok keys := mapM_readKey_eq_ok.2 hKeys
  have hRead : store.readKey file = .error _ := readKey_invalid hFile
  rw [List.mapM_append, hFront, List.mapM_cons, hRead]
  rfl

/-! ### In a directory -/

/-- Every key is read from the key files that the directory lists. -/
theorem all_of_directory (hDir : files.resolve store.dir = .ok loc)
    (hMade : files.lookup loc = some .directory) :
    store.all files = (listed loc files).mapM store.readKey := by
  rw [all, requireDir_eq_ok.2 ⟨loc, hDir, hMade⟩, keyFiles_eq hDir]
  rfl

/-- One key is searched for in the key files that the directory lists. -/
theorem get_of_directory (hDir : files.resolve store.dir = .ok loc)
    (hMade : files.lookup loc = some .directory) (id : String) : store.get id files =
      if (listed loc files).isEmpty then .error (.keyDirEmpty store.dir)
      else store.findKey id (listed loc files) := by
  rw [get, requireDir_eq_ok.2 ⟨loc, hDir, hMade⟩, keyFiles_eq hDir]
  rfl

/-- Where every key file holds a key, the first one of the id is found. -/
theorem get_of_keys (hDir : files.resolve store.dir = .ok loc)
    (hMade : files.lookup loc = some .directory)
    (hKeys : (listed loc files).map (KeyPair.ofFile ·.2) = keys.map .ok) :
    store.get id files = (keys.find? fun key => key.id = id).elim
      (.error (if keys = [] then .keyDirEmpty store.dir else .keyNotFound id)) .ok := by
  rw [get_of_directory hDir hMade]
  cases keys with
  | nil =>
      rw [List.map_nil, List.map_eq_nil_iff] at hKeys
      rw [hKeys]
      rfl
  | cons key keys =>
      have hSome : listed loc files ≠ [] := fun hNil => by simp [hNil] at hKeys
      have hFind := @findKey_append store id _ _ hKeys []
      rw [List.append_nil] at hFind
      rw [if_neg (by simpa using hSome), hFind, if_neg (List.cons_ne_nil _ _)]
      rfl

/-- Where a key file holds no key, the first one of the id before it is found, or the file is the error. -/
theorem get_of_invalid (hDir : files.resolve store.dir = .ok loc)
    (hMade : files.lookup loc = some .directory) (hFound : listed loc files = front ++ file :: rest)
    (hKeys : front.map (KeyPair.ofFile ·.2) = keys.map .ok)
    (hFile : KeyPair.ofFile file.2 = .error (KeyPair.invalid reason)) :
    store.get id files = (keys.find? fun key => key.id = id).elim
      (.error (.invalidKey (store.pathOf file.1) reason)) .ok := by
  have hRead : store.readKey file = .error _ := readKey_invalid hFile
  rw [get_of_directory hDir hMade, hFound, if_neg (by simp), findKey_append hKeys, findKey, hRead]

/-- Getting one key agrees with reading them all. Both miss a directory that is not there. If all are read, the
first one of the id is got; without one the directory is said to be empty, or the key not to be found. If the
first file that holds no key stops the reading, a key of the id from the files before it is got all the same,
and without one the error is that of the reading, which names the file. Entries that are no key files make no
difference, whatever order the directory lists them in. -/
theorem get_agrees_with_all (store : KeyStore) (files : Files) (id : String) :
    (files.isDirectory store.dir = false →
      store.all files = .error (.keyDirMissing store.dir) ∧
      store.get id files = .error (.keyDirMissing store.dir)) ∧
    (∀ keys, store.all files = .ok keys →
      store.get id files = (keys.find? fun key => key.id = id).elim
        (.error (if keys = [] then .keyDirEmpty store.dir else .keyNotFound id)) .ok) ∧
    (∀ e, files.isDirectory store.dir = true → store.all files = .error e →
      ∃ front file rest, ∃ keys : List KeyPair, ∃ reason,
        store.keyFiles files = .ok (front ++ file :: rest) ∧
        front.map (KeyPair.ofFile ·.2) = keys.map .ok ∧
        KeyPair.ofFile file.2 = .error (KeyPair.invalid reason) ∧
        e = .invalidKey (store.pathOf file.1) reason ∧
        store.get id files = (keys.find? fun key => key.id = id).elim (.error e) .ok) ∧
    (∀ loc files' loc', files.resolve store.dir = .ok loc → files.lookup loc = some .directory →
      files'.resolve store.dir = .ok loc' → files'.lookup loc' = some .directory →
      Alike (files.children loc) (files'.children loc') →
      store.get id files' = store.get id files ∧ store.all files' = store.all files) := by
  refine ⟨fun hMissing => ?_, fun keys hAll => ?_, fun e hDir hAll => ?_,
    fun loc files' loc' hDir hMade hDir' hMade' hAlike => ?_⟩
  · have hRequired : store.requireDir files = .error (.keyDirMissing store.dir) := by
      rw [requireDir, hMissing]
      rfl
    rw [all, get, hRequired]
    exact ⟨rfl, rfl⟩
  · obtain ⟨loc, hDir, hMade⟩ := Tracks.of_all_eq_ok hAll
    rw [all_of_directory hDir hMade, mapM_readKey_eq_ok] at hAll
    exact get_of_keys hDir hMade hAll
  · obtain ⟨loc, hDir, hMade⟩ := requireDir_eq_ok.1 (by rw [requireDir, hDir]; rfl)
    rw [all_of_directory hDir hMade] at hAll
    -- an error comes from the first file that is no key; the keys before it are found all the same
    rcases reading_cases (listed loc files) with ⟨keys, hKeys⟩ |
      ⟨front, file, rest, keys, reason, hFound, hKeys, hFile⟩
    · rw [mapM_readKey_eq_ok.2 hKeys] at hAll
      cases hAll
    · rw [hFound, mapM_readKey_of_invalid hKeys hFile] at hAll
      obtain rfl := Except.error.inj hAll
      exact ⟨front, file, rest, keys, reason, hFound ▸ keyFiles_eq hDir, hKeys, hFile, rfl,
        get_of_invalid hDir hMade hFound hKeys hFile⟩
  · have hSame : listed loc' files' = listed loc files := hAlike.filterMap_eq.symm
    rw [get_of_directory hDir hMade, get_of_directory hDir' hMade', all_of_directory hDir hMade,
      all_of_directory hDir' hMade', hSame]
    exact ⟨rfl, rfl⟩

end KeyStore

end VaultSync
