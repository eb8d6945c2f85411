import VaultSync.Proofs.Config.Loading
import VaultSync.Proofs.Entries.Store
import VaultSync.Proofs.Files.Spares
import VaultSync.Proofs.Keys.Listing
import VaultSync.Proofs.Keys.Removal

/-! What an entry leaves behind when it is written. Its file opens with the stored keys, and all that is read
on the way to it, the configuration and the key files, is read again as it was. -/
namespace VaultSync

open Files

variable {files files' made : Files} {loc : Location} {path dataDir : String}

/-! ### Files that can be written -/

/-- The directories on the way to a path can be made, and a file can be written there. -/
def Files.Accepts (files : Files) (path : String) : Prop :=
  ∃ made content files', files.createParents path = (.ok (), made) ∧ made.write path content = .ok files'

/-- Whether a file can be written does not depend on what is in it. -/
theorem Files.Accepts.write (h : files.Accepts path) : ∃ made loc mode,
    files.createParents path = (.ok (), made) ∧ made.resolve path = .ok loc ∧
      made.lookup loc ≠ some .directory ∧
      ∀ content, made.write path content = .ok (made.insert loc (.file content mode)) := by
  obtain ⟨made, content, files', hMade, hWrite⟩ := h
  obtain ⟨loc, hPath, hWrite⟩ := bind_eq_ok.1 hWrite
  refine ⟨made, loc, ?_⟩
  split at hWrite
  · cases hWrite
  · rename_i old mode hNode
    exact ⟨mode, hMade, hPath, by simp [hNode],
      fun content => by simp [Files.write, hPath, hNode, bind, Except.bind]⟩
  · rename_i hNode
    split at hWrite
    · cases hWrite
    · rename_i hName
      exact ⟨defaultMode, hMade, hPath, by simp [hNode], fun content => by
        simp [Files.write, hPath, hNode, hName, bind, Except.bind]⟩

/-- Directories that were made once are not made again, while they are there. -/
theorem Files.makeAlong_again {parts : List String} (hMade : files.makeAlong loc parts = (.ok (), made))
    (hDirs : ∀ l, made.lookup l = some .directory → files'.lookup l = some .directory) :
    files'.makeAlong loc parts = (.ok (), files') := by
  -- the second run finds each directory that the first one found or made
  induction parts generalizing files loc with
  | nil => rfl
  | cons part parts ih =>
      rw [makeAlong] at hMade ⊢
      split at hMade
      · rw [if_pos ‹_›]
        exact ih hMade
      · rw [if_neg ‹_›]
        split at hMade
        · rw [if_pos ‹_›]
          exact ih hMade
        · rw [if_neg ‹_›]
          have hThere {files : Files} (hDir : files.lookup (loc ++ [part]) = some .directory)
              (hRest : files.makeAlong (loc ++ [part]) parts = (.ok (), made)) :
              files'.lookup (loc ++ [part]) = some .directory := by
            have hSpared : Spares (fun _ => False) files made := by
              simpa only [hRest] using Spares.makeAlong files (loc ++ [part]) parts
            exact hDirs _ (hSpared.lookup _ _ id hDir)
          split at hMade
          · rename_i hDir
            rw [hThere hDir hMade]
            exact ih hMade
          · cases hMade
          · split at hMade
            · cases hMade
            · have hDir : (files.insert (loc ++ [part]) .directory).lookup (loc ++ [part]) =
                  some .directory := by
                rw [lookup_insert _ _ (by simp), if_pos rfl]
              rw [hThere hDir hMade]
              exact ih hMade

/-- Parents that were made stay made while their directories stand. -/
theorem Files.createParents_again (hMade : files.createParents path = (.ok (), made))
    (hWork : files'.workDir = made.workDir)
    (hDirs : ∀ l, made.lookup l = some .directory → files'.lookup l = some .directory) :
    files'.createParents path = (.ok (), files') := by
  have hSame : made.workDir = files.workDir := by
    simpa only [hMade] using (@Spares.createParents (fun _ => False) files path).workDir
  rw [createParents] at hMade ⊢
  split at hMade
  · rw [createDirAll] at hMade ⊢
    split at hMade
    · cases hMade
    · split at hMade
      · cases hMade
      · rw [if_neg ‹_›, if_neg ‹_›, start, hWork, hSame]
        exact makeAlong_again hMade hDirs
  · rfl

/-- A file that was written can be written again. -/
theorem Files.Accepts.again {content : ByteArray} (hMade : files.createParents path = (.ok (), made))
    (hWrite : made.write path content = .ok files') : files'.Accepts path := by
  obtain ⟨loc, mode, hPath, hNode, rfl⟩ := write_eq_ok hWrite
  have hRoot := ne_root_of_lookup hNode
  have hParents : (made.insert loc (.file content mode)).createParents path =
      (.ok (), made.insert loc (.file content mode)) :=
    createParents_again hMade rfl fun _ => lookup_insert_directory _ _ hNode
  have hThere : (made.insert loc (.file content mode)).lookup loc = some (.file content mode) := by
    rw [lookup_insert _ _ hRoot, if_pos rfl]
  refine ⟨_, content, (made.insert loc (.file content mode)).insert loc (.file content mode), hParents, ?_⟩
  simp [Files.write, resolve_insert hNode hPath, hThere, bind, Except.bind]

/-! ### Keys that are read -/

namespace KeyStore

variable {store : KeyStore}

/-- The keys that are read are those of parsed key files. -/
theorem exists_parsed {stored : List KeyPair} (h : store.all files = .ok stored) :
    ∃ keys : List ParsedKey, keys.map (·.1) = stored := by
  obtain ⟨-, -, h⟩ := bind_eq_ok.1 h
  obtain ⟨found, -, h⟩ := bind_eq_ok.1 h
  rw [mapM_readKey_eq_ok] at h
  have hParsed : ∀ key ∈ stored, ∃ parsed : ParsedKey, True ∧ parsed.1 = key := fun key hKey => by
    have hGiven : Except.ok key ∈ found.map (KeyPair.ofFile ·.2) := h ▸ List.mem_map_of_mem hKey
    obtain ⟨file, -, hFile⟩ := List.mem_map.1 hGiven
    exact ⟨⟨key, file.2, hFile⟩, trivial, rfl⟩
  obtain ⟨keys, hKeys, -⟩ := Tracks.exists_map hParsed
  exact ⟨keys, hKeys.symm⟩

end KeyStore

namespace Entries

open KeyStore (listed canHandle)

/-! ### What stays -/

/-- The locations of entries, wherever they lie. -/
def IsEntry (loc : Location) : Prop :=
  ∃ parent stem, loc = parent ++ [fileName stem]

/-- The configuration is no encrypted file. -/
theorem config_ne_fileName (stem : List Char) : Config.fileName ≠ fileName stem := by
  intro h
  have hLast : Config.fileName.toList.getLast? = some 'e' := by
    rw [h, fileName, String.toList_ofList, List.getLast?_append]
    rfl
  exact absurd hLast (by decide)

/-- All but entries is read again as it was. -/
structure Keeps (files files' : Files) : Prop where
  resolve : ∀ path loc, files.resolve path = .ok loc → files'.resolve path = .ok loc
  spares : Spares IsEntry files files'
  directories : ∀ loc, files.lookup loc = some .directory → files'.lookup loc = some .directory
  listed : ∀ dir, listed dir files' = listed dir files

namespace Keeps

theorem trans {files'' : Files} (h : Keeps files files') (h' : Keeps files' files'') :
    Keeps files files'' where
  resolve path loc hPath := h'.resolve path loc (h.resolve path loc hPath)
  spares := h.spares.trans h'.spares
  directories loc hDir := h'.directories loc (h.directories loc hDir)
  listed dir := (h'.listed dir).trans (h.listed dir)

theorem createParents (hTree : files.WellFormed) (path : String) :
    Keeps files (files.createParents path).2 where
  resolve _ _ hPath := (createParents_grows hTree path).2.resolve hPath
  spares := Spares.createParents files path
  directories _ hDir := (createParents_grows hTree path).2.keeps hDir
  listed dir := KeyStore.listed_createParents dir files path

/-- An entry is written. -/
theorem insert {root name : String} (hName : location root name = .ok path)
    (hPath : files.resolve path = .ok loc) (hNode : files.lookup loc ≠ some .directory) (content : ByteArray)
    (mode : Nat) : Keeps files (files.insert loc (.file content mode)) where
  resolve _ _ hOther := resolve_insert hNode hOther
  spares := by
    obtain ⟨front, stem, hParts, -⟩ := splitOnChar_location hName
    obtain ⟨parent, -, -, hLoc⟩ := resolve_name (isName_fileName stem) hParts hPath
    exact Spares.insert files _ ⟨parent, stem, hLoc⟩
  directories _ := lookup_insert_directory _ _ hNode
  listed dir := KeyStore.listed_insert_other fun other hOther =>
    resolve_ne_key hName hPath dir other hOther

/-- The keys are read as before. -/
theorem all_eq {store : KeyStore} {stored : List KeyPair} (h : Keeps files files')
    (hAll : store.all files = .ok stored) : store.all files' = .ok stored := by
  obtain ⟨dir, hDir, hMade⟩ := KeyStore.Tracks.of_all_eq_ok hAll
  have hRequired {files : Files} (hDir : files.resolve store.dir = .ok dir)
      (hMade : files.lookup dir = some .directory) : store.requireDir files = .ok () :=
    KeyStore.requireDir_eq_ok.2 ⟨dir, hDir, hMade⟩
  rw [KeyStore.all, hRequired hDir hMade, KeyStore.keyFiles_eq hDir] at hAll
  rw [KeyStore.all, hRequired (h.resolve _ _ hDir) (h.directories _ hMade),
    KeyStore.keyFiles_eq (h.resolve _ _ hDir), h.listed]
  exact hAll

/-- The configuration is no entry. -/
theorem load_eq {config : Config} (h : Keeps files files') (hLoad : Config.load files dataDir = .ok config) :
    Config.load files' dataDir = .ok config := by
  refine Config.load_of_spares h.spares h.directories (fun dir => ?_) hLoad
  rintro ⟨parent, stem, hLoc⟩
  have hName : Config.fileName = fileName stem := List.singleton_inj.1 (List.append_inj_right' hLoc rfl)
  exact config_ne_fileName stem hName

end Keeps

/-! ### Written entries -/

variable {store : KeyStore} {keys : List ParsedKey} {root name : String} {plain : ByteArray}
  {entropy : Entropy}

/-- An entry is encrypted to all stored keys if its file can be written. -/
theorem encrypt_of_accepts (hTree : files.WellFormed) (hName : location root name = .ok path)
    (hAll : store.all files = .ok (keys.map (·.1))) (hSome : keys ≠ []) (hWrite : files.Accepts path) :
    let sealed := Age.encrypt plain (keys.map (·.identity.recipient)) entropy
    ∃ files' loc mode, encrypt store root name plain files entropy = (.ok path, files', sealed.2) ∧
      files'.WellFormed ∧ files'.Accepts path ∧ Keeps files files' ∧ files'.resolve path = .ok loc ∧
      files'.lookup loc = some (.file sealed.1 mode) := by
  intro sealed
  obtain ⟨made, loc, mode, hMade, hPath, hNode, hWrite⟩ := hWrite.write
  have hTree' : made.WellFormed := by simpa only [hMade] using (createParents_grows hTree path).1
  have hMaking : Keeps files made := by simpa only [hMade] using Keeps.createParents hTree path
  have hRoot := ne_root_of_lookup hNode
  refine ⟨made.insert loc (.file sealed.1 mode), loc, mode, ?_, hTree'.insert_file hPath hNode _ _,
    .again hMade (hWrite sealed.1), hMaking.trans (.insert hName hPath hNode _ _),
    resolve_insert hNode hPath, ?_⟩
  · rw [encrypt, hName, hAll]
    simp only [ParsedKey.encrypt_eq plain hSome entropy, hMade, hWrite, sealed]
  · rw [lookup_insert _ _ hRoot, if_pos rfl]

/-- What the cipher is taken to do with one text: what is encrypted to the public parts of identities opens
with each of them. -/
def Opens (plain : ByteArray) (identities : List Age.Identity) (entropy : Entropy) : Prop :=
  ∀ identity ∈ identities,
    Age.decrypt (Age.encrypt plain (identities.map (·.recipient)) entropy).1 identity = .ok plain

/-- An entry that is encrypted to the stored keys is read back. -/
theorem decrypt_encrypt (hTree : files.WellFormed) (hName : location root name = .ok path)
    (hAll : store.all files = .ok (keys.map (·.1))) (hSome : keys ≠ []) (hWrite : files.Accepts path)
    (hOpens : Opens plain (keys.map (·.identity)) entropy) :
    ∃ files' entropy', encrypt store root name plain files entropy = (.ok path, files', entropy') ∧
      files'.WellFormed ∧ files'.Accepts path ∧ Keeps files files' ∧
      decrypt store root name files' = .ok plain := by
  obtain ⟨files', loc, mode, hEncrypt, hTree', hAgain, hKeeps, hPath, hFile⟩ :=
    encrypt_of_accepts hTree hName hAll hSome hWrite
  refine ⟨files', _, hEncrypt, hTree', hAgain, hKeeps, ?_⟩
  have hEach (key : ParsedKey) (hKey : key ∈ keys) :
      Age.decrypt (Age.encrypt plain (keys.map (·.identity.recipient)) entropy).1 key.identity =
        .ok plain := by
    have hOpen := hOpens key.identity (List.mem_map_of_mem hKey)
    rwa [List.map_map] at hOpen
  rw [decrypt_of_file hName hPath hFile (hKeeps.all_eq hAll)]
  rcases openWith_cases keys "no keys stored" with ⟨key, hKey, plain', hOpen, hResult⟩ | ⟨hNone, -⟩
  · rw [hEach key hKey, Except.ok.injEq] at hOpen
    rw [hResult, hOpen]
  · obtain ⟨key, rest, rfl⟩ := List.exists_cons_of_ne_nil hSome
    obtain ⟨fault, hFault⟩ := hNone key List.mem_cons_self
    rw [hEach key List.mem_cons_self] at hFault
    cases hFault

end Entries

end VaultSync
