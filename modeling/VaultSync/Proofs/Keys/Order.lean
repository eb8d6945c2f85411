import Mathlib.Data.List.Nodup
import Mathlib.Data.List.Pairwise
import VaultSync.Proofs.Keys.Lookup

/-! The search for a key in directories that list the same files in different orders. The order only decides how far
a search gets: it ends at the first file that holds no key, and what is listed behind that file is not found. -/
namespace VaultSync.KeyStore

open Files

variable {store : KeyStore} {files files' : Files} {loc : Location} {id : String}
  {file other : String × ByteArray} {found found' : List (String × ByteArray)}

/-! ### Listings -/

/-- Files that give keys of no common id. -/
def Apart (file other : String × ByteArray) : Prop :=
  ∀ id, ¬ (Gives id file ∧ Gives id other)

instance : Std.Symm Apart :=
  ⟨fun _ _ hApart id hBoth => hApart id hBoth.symm⟩

/-- No two files of a listing give keys of one id. -/
def Distinct (found : List (String × ByteArray)) : Prop :=
  found.Pairwise Apart

/-- Of a distinct listing a single file gives a key of an id. -/
theorem Distinct.eq_of_gives (h : Distinct found) (hFile : file ∈ found) (hOther : other ∈ found)
    (hGives : Gives id file) (hGives' : Gives id other) : other = file := by
  by_contra hNe
  exact List.Pairwise.forall h hOther hFile hNe id ⟨hGives', hGives⟩

/-- A file that holds no key is listed before all files that give keys of an id. -/
def Blocked (id : String) (found : List (String × ByteArray)) : Prop :=
  ∃ front file rest, found = front ++ file :: rest ∧ (∀ other ∈ front, ¬ Gives id other) ∧
    ∀ key, KeyPair.ofFile file.2 ≠ .ok key

theorem not_blocked_nil : ¬ Blocked id [] := by
  rintro ⟨front, file, rest, hFound, -⟩
  simp at hFound

/-- A listing is blocked by its first file, or behind a first file that gives another key. -/
theorem blocked_cons_iff : Blocked id (file :: found) ↔
    (∀ key, KeyPair.ofFile file.2 ≠ .ok key) ∨ ¬ Gives id file ∧ Blocked id found := by
  constructor
  · rintro ⟨front, last, rest, hFound, hFront, hNone⟩
    cases front with
    | nil =>
        obtain ⟨rfl, -⟩ := List.cons.inj hFound
        exact .inl hNone
    | cons first front =>
        obtain ⟨rfl, rfl⟩ := List.cons.inj hFound
        exact .inr ⟨hFront _ List.mem_cons_self, front, last, rest, rfl,
          fun other hOther => hFront other (List.mem_cons_of_mem _ hOther), hNone⟩
  · rintro (hNone | ⟨hFile, front, last, rest, rfl, hFront, hNone⟩)
    · exact ⟨[], file, found, rfl, by simp, hNone⟩
    · refine ⟨file :: front, last, rest, rfl, ?_, hNone⟩
      rintro other (_ | ⟨_, hOther⟩)
      · exact hFile
      · exact hFront other hOther

/-- Nothing is blocked where every file holds a key. -/
theorem not_blocked_of_keys (h : ∀ file ∈ found, ∃ key, KeyPair.ofFile file.2 = .ok key) :
    ¬ Blocked id found := by
  rintro ⟨front, file, rest, rfl, -, hNone⟩
  obtain ⟨key, hKey⟩ := h file (by simp)
  exact hNone key hKey

/-! ### Searching -/

/-- A search that is blocked ends at the first file that holds no key, and names it. -/
theorem findKey_of_blocked (h : Blocked id found) :
    ∃ front file rest, ∃ keys : List KeyPair, ∃ reason, found = front ++ file :: rest ∧
      front.map (KeyPair.ofFile ·.2) = keys.map .ok ∧ KeyPair.ofFile file.2 = .error (KeyPair.invalid reason) ∧
      store.findKey id found = .error (.invalidKey (store.pathOf file.1) reason) := by
  induction found with
  | nil => exact absurd h not_blocked_nil
  | cons file found ih =>
      cases hFile : KeyPair.ofFile file.2 with
      | error e =>
          obtain ⟨reason, rfl⟩ := KeyPair.exists_invalid_of_ofFile hFile
          have hRead : store.readKey file = .error (.invalidKey (store.pathOf file.1) reason) := readKey_invalid hFile
          exact ⟨[], file, found, [], reason, rfl, rfl, hFile, by rw [findKey, hRead]⟩
      | ok key =>
          obtain ⟨hOther, hRest⟩ := (blocked_cons_iff.1 h).resolve_left fun hNone => hNone key hFile
          -- The first file holds a key of another id, so the search goes on behind it.
          have hId : key.id ≠ id := fun hId => hOther ⟨key, hFile, hId⟩
          obtain ⟨front, last, rest, keys, reason, rfl, hKeys, hLast, hFind⟩ := ih hRest
          refine ⟨file :: front, last, rest, key :: keys, reason, rfl, ?_, hLast, ?_⟩
          · rw [List.map_cons, hFile, hKeys, List.map_cons]
          · rw [findKey, readKey_eq_ok.2 hFile]
            simpa only [if_neg hId] using hFind

/-- A search that is not blocked finds a key of the id if a file gives one. -/
theorem findKey_of_not_blocked (h : ¬ Blocked id found) :
    (∃ file ∈ found, ∃ key, KeyPair.ofFile file.2 = .ok key ∧ key.id = id ∧ store.findKey id found = .ok key) ∨
    (∀ file ∈ found, ¬ Gives id file) ∧ store.findKey id found = .error (.keyNotFound id) := by
  -- not being blocked goes over to the rest exactly while the key has not been found
  induction found with
  | nil => exact .inr ⟨by simp, rfl⟩
  | cons file found ih =>
      rw [blocked_cons_iff, not_or, not_forall] at h
      obtain ⟨⟨key, hFile⟩, hRest⟩ := h
      rw [not_not] at hFile
      have hRead : store.readKey file = .ok key := readKey_eq_ok.2 hFile
      rw [findKey, hRead]
      by_cases hId : key.id = id
      · exact .inl ⟨file, List.mem_cons_self, key, hFile, hId, if_pos hId⟩
      · have hOther : ¬ Gives id file := by
          rintro ⟨key', hFile', hId'⟩
          obtain rfl := Except.ok.inj (hFile.symm.trans hFile')
          exact hId hId'
        simp only [if_neg hId]
        rcases ih fun hBlocked => hRest ⟨hOther, hBlocked⟩ with ⟨last, hLast, found⟩ | ⟨hNone, hFind⟩
        · exact .inl ⟨last, List.mem_cons_of_mem _ hLast, found⟩
        · refine .inr ⟨?_, hFind⟩
          rintro last (_ | ⟨_, hLast⟩)
          · exact hOther
          · exact hNone last hLast

/-- Searches that are not blocked answer the same, whatever the order. -/
theorem findKey_of_perm (hOrder : found'.Perm found) (hDistinct : Distinct found) (hFree : ¬ Blocked id found)
    (hFree' : ¬ Blocked id found') : store.findKey id found' = store.findKey id found := by
  have hFound := @findKey_of_not_blocked store id found hFree
  have hFound' := @findKey_of_not_blocked store id found' hFree'
  rcases hFound with ⟨file, hFile, key, hKey, hId, hFind⟩ | ⟨hNone, hFind⟩
  · rcases hFound' with ⟨file', hFile', key', hKey', hId', hFind'⟩ | ⟨hNone', -⟩
    · obtain rfl := hDistinct.eq_of_gives hFile (hOrder.mem_iff.1 hFile') ⟨key, hKey, hId⟩ ⟨key', hKey', hId'⟩
      rw [hFind, hFind', ← hKey, ← hKey']
    · exact absurd ⟨key, hKey, hId⟩ (hNone' file (hOrder.mem_iff.2 hFile))
  · rcases hFound' with ⟨file', hFile', key', hKey', hId', -⟩ | ⟨-, hFind'⟩
    · exact absurd ⟨key', hKey', hId'⟩ (hNone file' (hOrder.mem_iff.1 hFile'))
    · rw [hFind, hFind']

/-! ### Directories -/

/-- The directory lists a file that holds no key before all files that give keys of an id. -/
def Blocks (store : KeyStore) (id : String) (files : Files) : Prop :=
  store.requireDir files = .ok () ∧ ∃ found, store.keyFiles files = .ok found ∧ Blocked id found

/-- A look-up goes through the listed files in their order. -/
theorem get_of_keyFiles (hRequired : store.requireDir files = .ok ()) (hFound : store.keyFiles files = .ok found)
    (id : String) : store.get id files =
      if found.isEmpty then .error (.keyDirEmpty store.dir) else store.findKey id found := by
  rw [get, hRequired, hFound]
  rfl

/-- Without its directory a look-up fails before it reads a file. -/
theorem get_of_requireDir (h : store.requireDir files ≠ .ok ()) :
    store.get id files = .error (.keyDirMissing store.dir) := by
  have hMissing : store.requireDir files = .error (.keyDirMissing store.dir) := by
    rw [requireDir] at h ⊢
    split <;> simp_all
  rw [get, hMissing]
  rfl

/-- A directory that is there under one order is there under the other, with the same key files. -/
theorem keyFiles_of_reordered (hTree : files.WellFormed) (hOrder : Reordered files files')
    (hRequired : store.requireDir files = .ok ()) :
    store.requireDir files' = .ok () ∧ ∃ found found', store.keyFiles files = .ok found ∧
      store.keyFiles files' = .ok found' ∧ found'.Perm found := by
  obtain ⟨loc, hDir, hMade⟩ := requireDir_eq_ok.1 hRequired
  have hDir' := hOrder.resolve hTree hDir
  exact ⟨requireDir_eq_ok.2 ⟨loc, hDir', (hOrder.lookup_eq hTree loc).trans hMade⟩, _, _, keyFiles_eq hDir,
    keyFiles_eq hDir', (hOrder.children loc).filterMap _⟩

/-- A blocked look-up fails with the error of the first file that is no key. -/
theorem get_of_blocks (h : store.Blocks id files) :
    ∃ front file rest, ∃ keys : List KeyPair, ∃ reason, store.keyFiles files = .ok (front ++ file :: rest) ∧
      front.map (KeyPair.ofFile ·.2) = keys.map .ok ∧ KeyPair.ofFile file.2 = .error (KeyPair.invalid reason) ∧
      store.get id files = .error (.invalidKey (store.pathOf file.1) reason) := by
  obtain ⟨hRequired, found, hFound, hBlocked⟩ := h
  obtain ⟨front, file, rest, keys, reason, rfl, hKeys, hFile, hFind⟩ := findKey_of_blocked hBlocked
  refine ⟨front, file, rest, keys, reason, hFound, hKeys, hFile, ?_⟩
  rw [get_of_keyFiles hRequired hFound, if_neg (by simp), hFind]

/-- A look-up that finds its key is not blocked. -/
theorem not_blocks_of_get {key : KeyPair} (h : store.get id files = .ok key) : ¬ store.Blocks id files := by
  intro hBlocks
  obtain ⟨_, _, _, _, _, -, -, -, hGet⟩ := get_of_blocks hBlocks
  rw [h] at hGet
  cases hGet

/-- Where no file that holds no key comes in between, the answer does not depend on the order. -/
theorem get_of_not_blocks (hTree : files.WellFormed) (hOrder : Reordered files files')
    (hDistinct : ∀ found, store.keyFiles files = .ok found → Distinct found) (hFree : ¬ store.Blocks id files)
    (hFree' : ¬ store.Blocks id files') : store.get id files' = store.get id files := by
  by_cases hRequired : store.requireDir files = .ok ()
  · obtain ⟨hRequired', found, found', hFound, hFound', hSame⟩ := keyFiles_of_reordered hTree hOrder hRequired
    have hFind : store.findKey id found' = store.findKey id found := by
      apply findKey_of_perm hSame (hDistinct found hFound)
      · exact fun hBlocked => hFree ⟨hRequired, found, hFound, hBlocked⟩
      · exact fun hBlocked => hFree' ⟨hRequired', found', hFound', hBlocked⟩
    have hEmpty : found'.isEmpty = found.isEmpty := by
      rw [Bool.eq_iff_iff, List.isEmpty_iff, List.isEmpty_iff]
      exact ⟨fun h => (h ▸ hSame).nil_eq.symm, fun h => (h ▸ hSame).eq_nil⟩
    rw [get_of_keyFiles hRequired hFound, get_of_keyFiles hRequired' hFound', hFind, hEmpty]
  · have hRequired' : store.requireDir files' ≠ .ok () := fun hThere =>
      hRequired (keyFiles_of_reordered (hOrder.wellFormed hTree) hOrder.symm hThere).1
    rw [get_of_requireDir hRequired, get_of_requireDir hRequired']

/-- A key look-up depends on the order of the directory only through files that hold no key. When no two files give
keys of one id, and under neither of two orders such a file is listed before all files that give the id, the answers
are the same. An order under which one is makes the look-up fail, with the first of these files for the error. So the
same key is found whenever one is found under both orders, and if all files hold keys the order does not matter. -/
theorem get_of_reordered (hTree : files.WellFormed) (hOrder : Reordered files files')
    (hDistinct : ∀ found, store.keyFiles files = .ok found → Distinct found) (id : String) :
    (¬ store.Blocks id files → ¬ store.Blocks id files' → store.get id files' = store.get id files) ∧
    (∀ listing, store.Blocks id listing →
      ∃ front file rest, ∃ keys : List KeyPair, ∃ reason, store.keyFiles listing = .ok (front ++ file :: rest) ∧
        front.map (KeyPair.ofFile ·.2) = keys.map .ok ∧ KeyPair.ofFile file.2 = .error (KeyPair.invalid reason) ∧
        store.get id listing = .error (.invalidKey (store.pathOf file.1) reason)) ∧
    (∀ key key', store.get id files = .ok key → store.get id files' = .ok key' → key' = key) ∧
    ((∀ found, store.keyFiles files = .ok found → ∀ file ∈ found, ∃ key, KeyPair.ofFile file.2 = .ok key) →
      store.get id files' = store.get id files) := by
  have hSame := @get_of_not_blocks store files files' id hTree hOrder hDistinct
  refine ⟨hSame, fun listing => get_of_blocks, fun key key' hGet hGet' => ?_, fun hKeys => ?_⟩
  · have hAnswers := hSame (not_blocks_of_get hGet) (not_blocks_of_get hGet')
    rw [hGet, hGet'] at hAnswers
    exact Except.ok.inj hAnswers
  · apply hSame
    · rintro ⟨-, found, hFound, hBlocked⟩
      exact not_blocked_of_keys (hKeys found hFound) hBlocked
    · rintro ⟨hRequired', found', hFound', hBlocked⟩
      obtain ⟨-, _, found, hThere, hFound, hPerm⟩ :=
        keyFiles_of_reordered (hOrder.wellFormed hTree) hOrder.symm hRequired'
      obtain rfl := Except.ok.inj (hFound'.symm.trans hThere)
      exact not_blocked_of_keys (fun file hFile => hKeys found hFound file (hPerm.mem_iff.2 hFile)) hBlocked

/-! ### Two orders of one directory -/

/-- A data directory with some key files. -/
def shelf (found : List (String × ByteArray)) : Files where
  workDir := []
  entries := (["data"], .directory) :: (["data", "keys"], .directory) ::
    found.map fun file => (["data", "keys", file.1], .file file.2 fileMode)

theorem reordered_shelf (hOrder : found'.Perm found) : Reordered (shelf found) (shelf found') :=
  ⟨rfl, ((hOrder.map _).cons _).cons _⟩

/-- Files of different names make a well-formed shelf. -/
theorem wellFormed_shelf (hNames : (found.map (·.1)).Nodup) : (shelf found).WellFormed where
  distinct := by
    have hFiles : ((found.map (·.1)).map fun name => ["data", "keys", name]).Nodup :=
      List.Nodup.map (fun _ _ hSame => by simpa using hSame) hNames
    simpa [shelf, Function.comp_def] using hFiles
  rooted e hMem := by
    simp only [shelf, List.mem_cons, List.mem_map] at hMem
    rcases hMem with rfl | rfl | ⟨file, -, rfl⟩ <;> simp
  parents e hMem := by
    simp only [shelf, List.mem_cons, List.mem_map] at hMem
    rcases hMem with rfl | rfl | ⟨file, -, rfl⟩ <;> rfl
  workDir := rfl

theorem requireDir_shelf (found : List (String × ByteArray)) : (inData "data").requireDir (shelf found) = .ok () := rfl

/-- A shelf lists its files in their order. -/
theorem keyFiles_shelf (hNames : (found.map (·.1)).all canHandle = true) :
    (inData "data").keyFiles (shelf found) = .ok found := by
  have hDir : (shelf found).resolve (inData "data").dir = .ok ["data", "keys"] := rfl
  have hChildren : (shelf found).children ["data", "keys"] = found.map fun file => (file.1, .file file.2 fileMode) := by
    simp [children_eq, shelf, child?, List.filterMap_map, Function.comp_def]
  have hListed : found.filterMap (fun file => keyFile? (file.1, .file file.2 fileMode)) = found := by
    refine (List.filterMap_congr fun file hFile => ?_).trans List.filterMap_some
    rw [keyFile?, if_pos (List.all_eq_true.1 hNames file.1 (List.mem_map_of_mem hFile))]
  rw [keyFiles_eq hDir, listed, hChildren, List.filterMap_map]
  exact congrArg Except.ok hListed

/-- The file of a key, under a name that does not say its id. -/
def mine (key : ParsedKey) : String × ByteArray :=
  ("mine.key", key.1.secret)

/-- An empty file, which holds no key. -/
def blank (name : String) : String × ByteArray :=
  (name, .empty)

theorem ofFile_blank (name : String) :
    KeyPair.ofFile (blank name).2 = .error (KeyPair.invalid "no AGE-SECRET-KEY line found") := by
  have hText : String.fromUTF8? .empty = some "" := rfl
  have hLine : KeyPair.secretLine? "" = none := by decide
  rw [blank, KeyPair.ofFile, KeyPair.identityOf, hText]
  simp only [hLine]
  rfl

theorem not_gives_blank (name : String) : ¬ Gives id (blank name) := by
  rintro ⟨key, hKey, -⟩
  rw [ofFile_blank] at hKey
  cases hKey

theorem distinct_mine (key : ParsedKey) (names : List String) : Distinct (mine key :: names.map blank) := by
  have hApart (file : String × ByteArray) (name : String) : Apart file (blank name) :=
    fun id hBoth => not_gives_blank name hBoth.2
  refine List.pairwise_cons.2 ⟨?_, List.pairwise_map.2 (List.pairwise_of_forall fun _ _ => hApart _ _)⟩
  rw [List.forall_mem_map]
  exact fun name _ => hApart _ name

theorem findKey_mine (key : ParsedKey) (rest : List (String × ByteArray)) :
    (inData "data").findKey key.1.id (mine key :: rest) = .ok key.1 := by
  have hRead : (inData "data").readKey (mine key) = .ok key.1 := readKey_eq_ok.2 key.ofFile_secret
  rw [findKey, hRead]
  exact if_pos rfl

section Mine

variable (key : ParsedKey) {names : List String}
  (hFound : (inData "data").keyFiles (shelf (mine key :: names.map blank)) = .ok (mine key :: names.map blank))

include hFound

theorem get_mine : (inData "data").get key.1.id (shelf (mine key :: names.map blank)) = .ok key.1 := by
  rw [get_of_keyFiles (requireDir_shelf _) hFound, if_neg (by simp), findKey_mine]

theorem not_blocks_shelf : ¬ (inData "data").Blocks key.1.id (shelf (mine key :: names.map blank)) :=
  not_blocks_of_get (get_mine key hFound)

end Mine

/-- A key that is listed before the files that hold none is found in any order of these. -/
theorem get_of_reordered_behind : ∃ (key : KeyPair) (files files' : Files), files.WellFormed ∧
    Reordered files files' ∧ files' ≠ files ∧ (∀ found, (inData "data").keyFiles files = .ok found → Distinct found) ∧
    (inData "data").get key.id files = .ok key ∧ (inData "data").get key.id files' = .ok key := by
  obtain ⟨key⟩ : Nonempty ParsedKey := ⟨.ofIdentity ⟨Bytes.replicate 32 7⟩ rfl⟩
  let found := mine key :: ["old.key", "torn.key"].map blank
  let found' := mine key :: ["torn.key", "old.key"].map blank
  have hFound : (inData "data").keyFiles (shelf found) = .ok found :=
    keyFiles_shelf (show ["mine.key", "old.key", "torn.key"].all canHandle = true by decide)
  have hFound' : (inData "data").keyFiles (shelf found') = .ok found' :=
    keyFiles_shelf (show ["mine.key", "torn.key", "old.key"].all canHandle = true by decide)
  have hTree : (shelf found).WellFormed :=
    wellFormed_shelf (show ["mine.key", "old.key", "torn.key"].Nodup by decide)
  have hOrder : Reordered (shelf found) (shelf found') := reordered_shelf ((List.Perm.swap _ _ _).cons _)
  have hDistinct (listed : List (String × ByteArray)) (hListed : (inData "data").keyFiles (shelf found) = .ok listed) :
      Distinct listed := Except.ok.inj (hFound.symm.trans hListed) ▸ distinct_mine key _
  have hFree : ¬ (inData "data").Blocks key.1.id (shelf found) := not_blocks_shelf key hFound
  have hFree' : ¬ (inData "data").Blocks key.1.id (shelf found') := not_blocks_shelf key hFound'
  have hGet : (inData "data").get key.1.id (shelf found) = .ok key.1 := get_mine key hFound
  refine ⟨key.1, shelf found, shelf found', hTree, hOrder, ?_, hDistinct, hGet, ?_⟩
  · simp [shelf, found, found', mine, blank]
  · rw [(get_of_reordered hTree hOrder hDistinct key.1.id).1 hFree hFree', hGet]

/-- Behind a file that holds no key the same key is not found. -/
theorem get_depends_on_order : ∃ (key : KeyPair) (files files' : Files), files.WellFormed ∧
    Reordered files files' ∧ (∀ found, (inData "data").keyFiles files = .ok found → Distinct found) ∧
    (inData "data").get key.id files = .ok key ∧
    (inData "data").get key.id files' = .error (.invalidKey "data/keys/old.key" "no AGE-SECRET-KEY line found") := by
  obtain ⟨key⟩ : Nonempty ParsedKey := ⟨.ofIdentity ⟨Bytes.replicate 32 7⟩ rfl⟩
  have hFound : (inData "data").keyFiles (shelf [mine key, blank "old.key"]) = .ok [mine key, blank "old.key"] :=
    keyFiles_shelf (show ["mine.key", "old.key"].all canHandle = true by decide)
  have hFound' : (inData "data").keyFiles (shelf [blank "old.key", mine key]) = .ok [blank "old.key", mine key] :=
    keyFiles_shelf (show ["old.key", "mine.key"].all canHandle = true by decide)
  have hTree : (shelf [mine key, blank "old.key"]).WellFormed :=
    wellFormed_shelf (show ["mine.key", "old.key"].Nodup by decide)
  have hRead : (inData "data").readKey (blank "old.key") = _ := readKey_invalid (ofFile_blank "old.key")
  refine ⟨key.1, _, _, hTree, reordered_shelf (List.Perm.swap _ _ _),
    fun listed hListed => Except.ok.inj (hFound.symm.trans hListed) ▸ distinct_mine key ["old.key"],
    @get_mine key ["old.key"] hFound, ?_⟩
  rw [get_of_keyFiles (requireDir_shelf _) hFound', if_neg (by simp), findKey, hRead]
  rfl

end VaultSync.KeyStore
