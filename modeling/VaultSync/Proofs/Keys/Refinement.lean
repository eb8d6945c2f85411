import VaultSync.Proofs.Keys.Store

/-! Runs of a store of keys. Whatever callers add, remove, import and generate, and in whatever order, the
directory and the answers of the store are those of a finite map from ids to the keys added last. -/
namespace VaultSync

/-- The key that the bytes of a file give, if they give one. -/
def ParsedKey.ofFile? (bytes : ByteArray) : Option ParsedKey :=
  match h : KeyPair.ofFile bytes with
  | .ok key => some ⟨key, bytes, h⟩
  | .error _ => none

theorem ParsedKey.ofFile?_ok {bytes : ByteArray} {key : KeyPair} (h : KeyPair.ofFile bytes = .ok key) :
    ofFile? bytes = some ⟨key, bytes, h⟩ := by
  unfold ofFile?
  split
  · rename_i key' hKey
    obtain rfl : key = key' := Except.ok.inj (h.symm.trans hKey)
    rfl
  · rename_i e hError
    exact absurd (h.symm.trans hError) (by simp)

theorem ParsedKey.ofFile?_error {bytes : ByteArray} {e : VaultError}
    (h : KeyPair.ofFile bytes = .error e) : ofFile? bytes = none := by
  unfold ofFile?
  split <;> simp_all

/-- A change of the set of keys. -/
inductive KeyDeed
  | added (key : ParsedKey)
  | removed (key : ParsedKey)

namespace KeyDeed

/-- A map from ids to keys after a change. -/
def update (map : String → Option KeyPair) : KeyDeed → String → Option KeyPair
  | added key, id => if id = key.1.id then some key.1 else map id
  | removed key, id => if id = key.1.id then none else map id

/-- The keys that changes leave, by id: for each the one added last, unless it was removed since. -/
def present (deeds : List KeyDeed) : String → Option KeyPair :=
  deeds.foldl update fun _ => none

/-- Some key was added. -/
def AnyAdded (deeds : List KeyDeed) : Prop :=
  ∃ key, added key ∈ deeds

/-- The last deed is carried out on what the earlier ones left. -/
theorem present_concat (deeds : List KeyDeed) (deed : KeyDeed) :
    present (deeds ++ [deed]) = deed.update (present deeds) := by
  simp [present]

/-- What a store does for a change. -/
def carryOut (store : KeyStore) (files : Files) : KeyDeed → Except VaultError String × Files
  | added key => store.add key.1 files
  | removed key => store.remove key.1 files

end KeyDeed

/-- The bytes of a new key file. -/
def newKeyFile (created : String) (entropy : Entropy) : ByteArray :=
  (KeyPair.fileText created ⟨(entropy.draw Age.keyLength).1⟩).toUTF8

/-- What a caller asks of a store: keys come out of key files, given, read or new. -/
inductive KeyAction
  | add (key : ParsedKey)
  | remove (key : ParsedKey)
  | importFile (path : String)
  | generate (created : String) (entropy : Entropy)

namespace KeyAction

/-- The change that an action asks for. Importing a file that cannot be read or holds no key asks for
none. -/
def deed? (files : Files) : KeyAction → Option KeyDeed
  | add key => some (.added key)
  | remove key => some (.removed key)
  | importFile path =>
    (files.read path).toOption.bind fun bytes => (ParsedKey.ofFile? bytes).map .added
  | generate created entropy =>
    (ParsedKey.ofFile? (newKeyFile created entropy)).map .added

end KeyAction

namespace KeyStore

open Files
open KeyDeed (added removed present AnyAdded)

/-- Carries out an action. The reply is the id of its key. -/
def perform (store : KeyStore) (files : Files) : KeyAction → Except VaultError String × Files
  | .add key => store.add key.1 files
  | .remove key => store.remove key.1 files
  | .importFile path =>
    let (reply, files) := store.importFile path files
    (reply.map (·.id), files)
  | .generate created entropy =>
    let (reply, files, _) := store.generate created files entropy
    (reply.map (·.id), files)

/-- Carries out actions one after the other, and collects the changes that they asked for. -/
def run (store : KeyStore) : List KeyAction → Files → List KeyDeed × Files
  | [], files => ([], files)
  | action :: actions, files =>
    let (deeds, last) := store.run actions (store.perform files action).2
    ((action.deed? files).toList ++ deeds, last)

variable {store : KeyStore} {loc : Location} {files : Files} {action : KeyAction}

theorem add_ok {key : KeyPair} {id : String} (h : (store.add key files).1 = .ok id) : id = key.id := by
  unfold add at h
  split at h
  · simp at h
  · split at h
    · simp at h
    · split at h
      · simp at h
      · simpa using h.symm

/-- The id of a key that was added, as importing and generating reply with it. -/
theorem add_reply (key : KeyPair) :
    (match store.add key files with
      | (.error e, files) => ((.error e : Except VaultError KeyPair).map (·.id), files)
      | (.ok _, files) => ((.ok key : Except VaultError KeyPair).map (·.id), files)) =
      store.add key files := by
  rcases hAdd : store.add key files with ⟨reply, files'⟩
  cases reply with
  | error e => rfl
  | ok id =>
      have hReply : (store.add key files).1 = .ok id := by rw [hAdd]
      rw [add_ok hReply]
      rfl

theorem generate_eq (created : String) (entropy : Entropy) :
    KeyPair.generate created entropy =
      (KeyPair.ofFile (newKeyFile created entropy), (entropy.draw Age.keyLength).2) := rfl

/-- An action with a deed does what the deed says. -/
theorem perform_of_deed {deed : KeyDeed} (h : action.deed? files = some deed) :
    store.perform files action = deed.carryOut store files := by
  -- import and generation end in the same call as adding, on the key that was read or drawn
  cases action with
  | add key =>
      obtain rfl : added key = deed := Option.some.inj h
      rfl
  | remove key =>
      obtain rfl : removed key = deed := Option.some.inj h
      rfl
  | importFile path =>
      cases hRead : files.read path with
      | error e => simp [KeyAction.deed?, hRead, Except.toOption] at h
      | ok bytes =>
          cases hKey : KeyPair.ofFile bytes with
          | error e =>
              simp [KeyAction.deed?, hRead, Except.toOption, ParsedKey.ofFile?_error hKey] at h
          | ok key =>
              simp only [KeyAction.deed?, hRead, Except.toOption, Option.bind_some,
                ParsedKey.ofFile?_ok hKey, Option.map_some, Option.some.injEq] at h
              obtain rfl := h
              rw [KeyDeed.carryOut, ← add_reply, perform, importFile, hRead]
              simp only [hKey]
              rcases store.add key files with ⟨reply, files'⟩
              cases reply <;> rfl
  | generate created entropy =>
      cases hKey : KeyPair.ofFile (newKeyFile created entropy) with
      | error e => simp [KeyAction.deed?, ParsedKey.ofFile?_error hKey] at h
      | ok key =>
          simp only [KeyAction.deed?, ParsedKey.ofFile?_ok hKey, Option.map_some,
            Option.some.injEq] at h
          obtain rfl := h
          rw [KeyDeed.carryOut, ← add_reply, perform, generate, generate_eq]
          simp only [hKey]
          rcases store.add key files with ⟨reply, files'⟩
          cases reply <;> rfl

/-- An action without a key leaves everything as it is. -/
theorem perform_of_no_deed (h : action.deed? files = none) : (store.perform files action).2 = files := by
  cases action with
  | add key => simp [KeyAction.deed?] at h
  | remove key => simp [KeyAction.deed?] at h
  | importFile path =>
      cases hRead : files.read path with
      | error e => simp [perform, importFile, hRead]
      | ok bytes =>
          cases hKey : KeyPair.ofFile bytes with
          | error e => simp [perform, importFile, hRead, hKey]
          | ok key =>
              simp [KeyAction.deed?, hRead, Except.toOption, ParsedKey.ofFile?_ok hKey] at h
  | generate created entropy =>
      cases hKey : KeyPair.ofFile (newKeyFile created entropy) with
      | error e => simp [perform, generate, generate_eq, hKey]
      | ok key => simp [KeyAction.deed?, ParsedKey.ofFile?_ok hKey] at h

/-! ### The map behind a directory -/

/-- What runs keep. Before the first key there is no directory; from then on it holds the keys of a list
that gives each id the key that the changes leave it. -/
def Mirrors (store : KeyStore) (loc : Location) (deeds : List KeyDeed) (files : Files) : Prop :=
  (Unmade store loc files ∧ ¬ AnyAdded deeds ∧ ∀ id, present deeds id = none) ∨
    ∃ keys, Holds store loc files keys ∧ AnyAdded deeds ∧
      ∀ id, present deeds id = (keys.find? fun key => key.1.id = id).map (·.1)

variable {keys : List ParsedKey} {deeds : List KeyDeed}

/-- Without the keys of one id a search finds what it found for all others. -/
theorem find_filter (keys : List ParsedKey) (gone id : String) :
    (keys.filter fun key => key.1.id ≠ gone).find? (fun key => key.1.id = id) =
      if id = gone then none else keys.find? fun key => key.1.id = id := by
  rw [List.find?_filter]
  split
  · rename_i hId
    subst hId
    simp
  · rename_i hId
    congr 1
    funext key
    by_cases hKey : key.1.id = id <;> simp [hKey, hId]

/-- Among keys of different ids a search finds exactly the key of the id. -/
theorem find_eq_some_iff (h : (keys.map fun key => key.1.id).Nodup) {key : ParsedKey} {id : String} :
    (keys.find? fun key => key.1.id = id) = some key ↔ key ∈ keys ∧ key.1.id = id := by
  induction keys with
  | nil => simp
  | cons other keys ih =>
      rw [List.map_cons, List.nodup_cons] at h
      rw [List.find?_cons]
      -- the first key of the id is the only one
      by_cases hOther : other.1.id = id
      · have hRest : key ∈ keys → key.1.id ≠ id := fun hKey hId =>
          h.1 (List.mem_map.2 ⟨key, hKey, hId.trans hOther.symm⟩)
        simp only [hOther, decide_true, Option.some.injEq, List.mem_cons]
        constructor
        · rintro rfl
          exact ⟨.inl rfl, hOther⟩
        · rintro ⟨rfl | hKey, hId⟩
          · rfl
          · exact absurd hId (hRest hKey)
      · simp only [hOther, decide_false, ih h.2, List.mem_cons]
        constructor
        · exact fun hKey => ⟨.inr hKey.1, hKey.2⟩
        · rintro ⟨rfl | hKey, hId⟩
          · exact absurd hId hOther
          · exact ⟨hKey, hId⟩

/-- A map that a list gives has just the keys of the list. -/
theorem map_eq_some_iff (h : (keys.map fun key => key.1.id).Nodup) {map : String → Option KeyPair}
    (hMap : ∀ id, map id = (keys.find? fun key => key.1.id = id).map (·.1)) {id : String} {key : KeyPair} :
    map id = some key ↔ ∃ parsed ∈ keys, parsed.1.id = id ∧ parsed.1 = key := by
  rw [hMap, Option.map_eq_some_iff]
  constructor
  · rintro ⟨parsed, hFind, hKey⟩
    obtain ⟨hMem, hId⟩ := (find_eq_some_iff h).1 hFind
    exact ⟨parsed, hMem, hId, hKey⟩
  · rintro ⟨parsed, hMem, hId, hKey⟩
    exact ⟨parsed, (find_eq_some_iff h).2 ⟨hMem, hId⟩, hKey⟩

/-- Adding a key to the files is adding it to the map. -/
theorem update_added {map : String → Option KeyPair}
    (h : ∀ id, map id = (keys.find? fun key => key.1.id = id).map (·.1)) (key : ParsedKey) (id : String) :
    (added key).update map id =
      ((keys.filter (fun other => other.1.id ≠ key.1.id) ++ [key]).find? fun key => key.1.id = id).map
        (·.1) := by
  rw [KeyDeed.update, List.find?_append, find_filter, h]
  by_cases hId : id = key.1.id
  · simp [hId]
  · have hOther : key.1.id ≠ id := fun hEq => hId hEq.symm
    simp [hId, hOther]

/-- Removing a key from the files is removing it from the map. -/
theorem update_removed {map : String → Option KeyPair}
    (h : ∀ id, map id = (keys.find? fun key => key.1.id = id).map (·.1)) (key : ParsedKey) (id : String) :
    (removed key).update map id =
      ((keys.filter fun other => other.1.id ≠ key.1.id).find? fun key => key.1.id = id).map (·.1) := by
  rw [KeyDeed.update, find_filter, h]
  split <;> rfl

namespace Mirrors

/-- A store without its directory mirrors no deed. -/
theorem start (h : Unmade store loc files) : Mirrors store loc [] files :=
  .inl ⟨h, by simp [AnyAdded], fun _ => rfl⟩

/-- One change keeps the directory in step with the map. -/
theorem carryOut (hRoomy : Roomy store) (h : Mirrors store loc deeds files) (deed : KeyDeed) :
    Mirrors store loc (deeds ++ [deed]) (deed.carryOut store files).2 := by
  -- before the first key there is no directory; from then on the files are those of the keys
  rcases h with ⟨hUnmade, hNone, hPresent⟩ | ⟨keys, hHolds, ⟨first, hFirst⟩, hPresent⟩
  · cases deed with
    | added key =>
        obtain ⟨files', hAdd, hHolds⟩ := hUnmade.add_eq hRoomy key
        refine .inr ⟨[key], by rw [KeyDeed.carryOut, hAdd]; exact hHolds, ⟨key, by simp⟩, fun id => ?_⟩
        rw [KeyDeed.present_concat]
        have hEmpty : ∀ id, present deeds id =
            (([] : List ParsedKey).find? fun key => key.1.id = id).map (·.1) := hPresent
        exact update_added hEmpty key id
    | removed key =>
        refine .inl ⟨?_, by simpa [AnyAdded] using hNone, fun id => ?_⟩
        · rw [KeyDeed.carryOut, hUnmade.remove_eq hRoomy]
          exact hUnmade
        · rw [KeyDeed.present_concat, KeyDeed.update, hPresent, ite_self]
  · cases deed with
    | added key =>
        refine .inr ⟨keys.filter (fun other => other.1.id ≠ key.1.id) ++ [key], ?_,
          ⟨first, List.mem_append_left _ hFirst⟩, fun id => ?_⟩
        · rw [KeyDeed.carryOut, hHolds.add_eq hRoomy]
          exact hHolds.insert_file key
        · rw [KeyDeed.present_concat]
          exact update_added hPresent key id
    | removed key =>
        obtain ⟨files', hRemove, hLeft⟩ := hHolds.remove_eq hRoomy key
        refine .inr ⟨keys.filter fun other => other.1.id ≠ key.1.id, ?_,
          ⟨first, List.mem_append_left _ hFirst⟩, fun id => ?_⟩
        · rw [KeyDeed.carryOut, hRemove]
          exact hLeft
        · rw [KeyDeed.present_concat]
          exact update_removed hPresent key id

/-- One action keeps the mirror. -/
theorem perform (hRoomy : Roomy store) (h : Mirrors store loc deeds files) (action : KeyAction) :
    Mirrors store loc (deeds ++ (action.deed? files).toList) (store.perform files action).2 := by
  cases hDeed : action.deed? files with
  | none =>
      rw [perform_of_no_deed hDeed, Option.toList_none, List.append_nil]
      exact h
  | some deed =>
      rw [perform_of_deed hDeed]
      exact h.carryOut hRoomy deed

/-- Every list of actions keeps the mirror. -/
theorem run (hRoomy : Roomy store) (h : Mirrors store loc deeds files) (actions : List KeyAction) :
    Mirrors store loc (deeds ++ (store.run actions files).1) (store.run actions files).2 := by
  induction actions generalizing deeds files with
  | nil => simpa [KeyStore.run] using h
  | cons action actions ih =>
      rw [KeyStore.run, ← List.append_assoc]
      exact ih (h.perform hRoomy action)

end Mirrors

/-! ### What callers see -/

/-- The directory and the answers of a store after changes of a finite map. The directory holds one file
for each key that is present, with its latest bytes, and nothing else at any depth. What an id without
a key answers depends on whether a key was ever added and on whether any is left. -/
structure Refines (store : KeyStore) (loc : Location) (deeds : List KeyDeed) (files : Files) : Prop where
  made : files.lookup loc = some .directory ↔ AnyAdded deeds
  empty_unmade : ¬ AnyAdded deeds → ∀ e ∈ files.entries, ¬ loc <+: e.1
  files_iff : ∀ name node, (name, node) ∈ files.children loc ↔
    ∃ id key, present deeds id = some key ∧ name = fileName id ∧ node = .file key.secret fileMode
  files_nodup : ((files.children loc).map (·.1)).Nodup
  shallow : ∀ e ∈ files.entries, loc <+: e.1 → e.1.length ≤ loc.length + 1
  get_present : ∀ id key, present deeds id = some key → key.id = id ∧ store.get id files = .ok key
  get_unmade : ¬ AnyAdded deeds → ∀ id, store.get id files = .error (.keyDirMissing store.dir)
  get_empty : AnyAdded deeds → (∀ id, present deeds id = none) →
    ∀ id, store.get id files = .error (.keyDirEmpty store.dir)
  get_absent : ∀ id other, present deeds id = none → present deeds other ≠ none →
    store.get id files = .error (.keyNotFound id)
  all_unmade : ¬ AnyAdded deeds → store.all files = .error (.keyDirMissing store.dir)
  all_made : AnyAdded deeds → ∃ keys, store.all files = .ok keys ∧ (keys.map (·.id)).Nodup ∧
    ∀ key, key ∈ keys ↔ present deeds key.id = some key
  add_ok : ∀ action key, action.deed? files = some (added key) →
    (store.perform files action).1 = .ok key.1.id
  remove_unmade : ¬ AnyAdded deeds →
    ∀ key, (store.perform files (.remove key)).1 = .error (.keyDirMissing store.dir)
  remove_made : AnyAdded deeds → ∀ key, (store.perform files (.remove key)).1 = .ok key.1.id

/-- A store without its directory refines the empty map. -/
theorem Unmade.refines (hRoomy : Roomy store) (h : Unmade store loc files) (hNone : ¬ AnyAdded deeds)
    (hPresent : ∀ id, present deeds id = none) : Refines store loc deeds files where
  made := by simp [h.lookup_eq_none hRoomy, hNone]
  empty_unmade _ := h.empty
  files_iff name node := by simp [h.children_eq_nil, hPresent]
  files_nodup := by simp [h.children_eq_nil]
  shallow e hEntry hBelow := absurd hBelow (h.empty e hEntry)
  get_present id key hKey := by simp [hPresent] at hKey
  get_unmade _ id := by
    rw [get, h.requireDir_eq hRoomy]
    rfl
  get_empty hAny := absurd hAny hNone
  get_absent id other _ hOther := absurd (hPresent other) hOther
  all_unmade _ := by
    rw [all, h.requireDir_eq hRoomy]
    rfl
  all_made hAny := absurd hAny hNone
  add_ok action key hDeed := by
    obtain ⟨files', hAdd, -⟩ := h.add_eq hRoomy key
    rw [perform_of_deed hDeed, KeyDeed.carryOut, hAdd]
  remove_unmade _ key := by rw [perform, h.remove_eq hRoomy]
  remove_made hAny := absurd hAny hNone

/-- A store that holds the keys of the map refines it. -/
theorem Holds.refines (hRoomy : Roomy store) (h : Holds store loc files keys) (hAny : AnyAdded deeds)
    (hPresent : ∀ id, present deeds id = (keys.find? fun key => key.1.id = id).map (·.1)) :
    Refines store loc deeds files where
  made := by simp [h.made, hAny]
  empty_unmade hNone := absurd hAny hNone
  files_iff name node := by
    simp only [h.children, List.mem_map, map_eq_some_iff h.nodup hPresent]
    constructor
    · rintro ⟨parsed, hMem, hEntry⟩
      obtain ⟨hName, hNode⟩ := Prod.mk.inj hEntry
      exact ⟨parsed.1.id, parsed.1, ⟨parsed, hMem, rfl, rfl⟩, hName.symm, hNode.symm⟩
    · rintro ⟨id, key, ⟨parsed, hMem, rfl, rfl⟩, rfl, rfl⟩
      exact ⟨parsed, hMem, rfl⟩
  files_nodup := by
    rw [h.children, List.map_map]
    exact (List.pairwise_map.2 <| List.pairwise_map.1 h.nodup |>.imp fun hNe hName =>
      hNe (fileName_inj hName))
  shallow := h.shallow
  get_present id key hKey := by
    rw [hPresent, Option.map_eq_some_iff] at hKey
    obtain ⟨key, hFind, rfl⟩ := hKey
    obtain ⟨hMem, hId⟩ := (find_eq_some_iff h.nodup).1 hFind
    rw [h.get_eq, if_neg (List.ne_nil_of_mem hMem), hFind]
    exact ⟨hId, rfl⟩
  get_unmade hNone := absurd hAny hNone
  get_empty _ hEmpty id := by
    have hKeys : keys = [] := by
      refine List.eq_nil_iff_forall_not_mem.2 fun key hKey => ?_
      have hSome := (map_eq_some_iff h.nodup hPresent).2 ⟨key, hKey, rfl, rfl⟩
      rw [hEmpty] at hSome
      exact absurd hSome (by simp)
    rw [h.get_eq, if_pos hKeys]
  get_absent id other hId hOther := by
    rw [hPresent, Option.map_eq_none_iff] at hId
    have hKeys : keys ≠ [] := by
      rintro rfl
      exact hOther (hPresent other)
    rw [h.get_eq, if_neg hKeys, hId]
    rfl
  all_unmade hNone := absurd hAny hNone
  all_made _ := by
    refine ⟨_, h.all_eq, by simpa using h.nodup, fun key => ?_⟩
    rw [List.mem_map, map_eq_some_iff h.nodup hPresent]
    constructor
    · rintro ⟨parsed, hMem, rfl⟩
      exact ⟨parsed, hMem, rfl, rfl⟩
    · rintro ⟨parsed, hMem, -, rfl⟩
      exact ⟨parsed, hMem, rfl⟩
  add_ok action key hDeed := by rw [perform_of_deed hDeed, KeyDeed.carryOut, h.add_eq hRoomy]
  remove_unmade hNone := absurd hAny hNone
  remove_made _ key := by
    obtain ⟨files', hRemove, -⟩ := h.remove_eq hRoomy key
    rw [perform, hRemove]

/-- A store refines a finite map from ids to keys. Started in a data directory without a directory of
keys, it holds and answers after every list of actions what the map says; every prefix of a run is such
a list. Paths have to be short enough for the operating system. -/
theorem run_refines {dataDir : String} (hDir : files.resolve (inData dataDir).dir = .ok loc)
    (hNew : ∀ e ∈ files.entries, ¬ loc <+: e.1)
    (hShort : (inData dataDir).dir.utf8ByteSize + fileRoom KeyPair.idLength ≤ maxPathBytes) (actions : List KeyAction) :
    Refines (inData dataDir) loc ((inData dataDir).run actions files).1
      ((inData dataDir).run actions files).2 := by
  have hRoomy := inData_roomy hShort
  have hMirrors := (Mirrors.start ⟨hDir, hNew⟩).run hRoomy actions
  rw [List.nil_append] at hMirrors
  rcases hMirrors with ⟨hUnmade, hNone, hPresent⟩ | ⟨keys, hHolds, hAny, hPresent⟩
  · exact hUnmade.refines hRoomy hNone hPresent
  · exact hHolds.refines hRoomy hAny hPresent

/-- A run that generates a key and then tries to import a directory. -/
theorem run_refines_generate :
    (⟨[], [(["data"], .directory)]⟩ : Files).resolve (inData "data").dir = .ok ["data", "keys"] ∧
      Refines (inData "data") ["data", "keys"]
        ((inData "data").run [.generate "now" ⟨ByteArray.empty, 0⟩, .importFile "data"]
          ⟨[], [(["data"], .directory)]⟩).1
        ((inData "data").run [.generate "now" ⟨ByteArray.empty, 0⟩, .importFile "data"]
          ⟨[], [(["data"], .directory)]⟩).2 :=
  ⟨rfl, run_refines rfl (by decide) (by decide) _⟩

/-- Before the first key is added no list of keys is given, not even an empty one. -/
theorem all_unmade_error :
    ((inData "data").run [] ⟨[], [(["data"], .directory)]⟩).1 = [] ∧
      (inData "data").all ((inData "data").run [] ⟨[], [(["data"], .directory)]⟩).2 =
        .error (.keyDirMissing "data/keys") :=
  ⟨rfl, rfl⟩

end KeyStore

end VaultSync
