import VaultSync.Proofs.Age.File
import VaultSync.Proofs.Entries.Store

/-! Entries over the life of a vault. Keys come and go and entries are written over, through whatever names
lead to their files, and an entry can be read exactly while one of the keys that it was encrypted to is
stored. The cipher is only asked to keep its promise for the texts and the keys of the run. -/
namespace VaultSync

/-- What is taken from the cipher about one text and one identity: what was encrypted to the public part
of the identity opens with it, and nothing else does. -/
structure Age.Honours (plain : ByteArray) (recipients : List Recipient) (entropy : Entropy)
    (identity : Identity) : Prop where
  opens : identity.recipient ∈ recipients →
    decrypt (encrypt plain recipients entropy).1 identity = .ok plain
  refuses : identity.recipient ∉ recipients →
    ∃ fault, decrypt (encrypt plain recipients entropy).1 identity = .error fault

/-- What happens to a vault. -/
inductive VaultAction
  | add (key : ParsedKey)
  | remove (key : ParsedKey)
  | encrypt (root name : String) (plain : ByteArray) (entropy : Entropy)
  | decrypt (root name : String)
  /-- From now on directories list their entries in the order of this list. -/
  | reorder (entries : List (Location × Node))

/-- The last encryption to a file. -/
structure Sealing where
  path : String
  plain : ByteArray
  /-- The keys that were stored then, by id. -/
  stored : String → Option KeyPair

/-- The files of a vault, and what was done to them. -/
structure Vault where
  files : Files
  /-- The keys that were added and not removed since, by id. -/
  stored : String → Option KeyPair
  /-- The last encryption that succeeded, by the file that it wrote. -/
  sealed : Location → Option Sealing

namespace Vault

open Files
open KeyDeed (added removed)

/-- A vault in which nothing was done yet. -/
def start (files : Files) : Vault := ⟨files, fun _ => none, fun _ => none⟩

/-- Carries out an action. A failed one may still have made directories. -/
def perform (store : KeyStore) (vault : Vault) : VaultAction → Vault
  | .add key =>
    match store.add key.1 vault.files with
    | (.error _, files) => { vault with files }
    | (.ok _, files) => { vault with files, stored := (added key).update vault.stored }
  | .remove key =>
    match store.remove key.1 vault.files with
    | (.error _, files) => { vault with files }
    | (.ok _, files) => { vault with files, stored := (removed key).update vault.stored }
  | .encrypt root name plain entropy =>
    match Entries.encrypt store root name plain vault.files entropy with
    | (.error _, files, _) => { vault with files }
    | (.ok path, files, _) =>
      match files.resolve path with
      | .error _ => { vault with files }
      | .ok loc =>
        { vault with
          files
          sealed := fun other => if other = loc then some ⟨path, plain, vault.stored⟩ else vault.sealed other }
  | .decrypt .. => vault
  | .reorder entries =>
    if entries.Perm vault.files.entries then { vault with files := { vault.files with entries } } else vault

def run (store : KeyStore) (actions : List VaultAction) (vault : Vault) : Vault :=
  actions.foldl (perform store) vault

/-- Some key of the one map is in the other: under its id, with its public part. -/
def Kept (before now : String → Option KeyPair) : Prop :=
  ∃ id key key', before id = some key ∧ now id = some key' ∧ key'.recipient = key.recipient

/-- The cipher keeps its promise for every text that is encrypted, to whichever of the keys that are
added, and for each of these keys. -/
def Honoured (actions : List VaultAction) : Prop :=
  ∀ root name plain entropy, .encrypt root name plain entropy ∈ actions →
    ∀ recipients : List Age.Recipient, recipients ≠ [] → recipients.Nodup →
      (∀ recipient ∈ recipients, ∃ key, .add key ∈ actions ∧ key.identity.recipient = recipient) →
        ∀ key, .add key ∈ actions → Age.Honours plain recipients entropy key.identity

/-! ### What runs keep -/

/-- How an encryption was made: to all keys that were stored, each once. -/
structure Sealed (actions : List VaultAction) (sealing : Sealing) (file : ByteArray)
    (keys : List ParsedKey) : Prop where
  nonempty : keys ≠ []
  distinct : (keys.map fun key => key.1.id).Nodup
  stored : ∀ key ∈ keys, sealing.stored key.1.id = some key.1
  listed : ∀ id key, sealing.stored id = some key → ∃ parsed ∈ keys, parsed.1 = key ∧ key.id = id
  added : ∀ key ∈ keys, .add key ∈ actions
  encrypted : ∃ root name entropy, .encrypt root name sealing.plain entropy ∈ actions ∧
    file = (Age.encrypt sealing.plain (keys.map (·.identity.recipient)) entropy).1

/-- The last encryption to a file is in it, the path that was written leads there, and the directory of
keys is there. -/
structure LiesAt (store : KeyStore) (actions : List VaultAction) (files : Files) (loc : Location)
    (sealing : Sealing) : Prop where
  reached : files.resolve sealing.path = .ok loc
  apart : ∀ dir name, KeyStore.canHandle name = true → loc ≠ dir ++ [name]
  dirReached : files.resolve store.dir = .ok (files.destination store.dir)
  dirMade : files.lookup (files.destination store.dir) = some .directory
  written : ∃ file mode keys, files.lookup loc = some (.file file mode) ∧ Sealed actions sealing file keys

/-- What every action of a list keeps. -/
structure Keeps (store : KeyStore) (actions : List VaultAction) (vault : Vault) : Prop where
  tree : vault.files.WellFormed
  keys : store.Tracks vault.stored vault.files
  added : ∀ key : ParsedKey, vault.stored key.1.id = some key.1 → .add key ∈ actions
  entries : ∀ loc sealing, vault.sealed loc = some sealing →
    LiesAt store actions vault.files loc sealing

variable {store : KeyStore} {actions : List VaultAction} {vault : Vault} {files files' : Files}
  {loc : Location} {sealing : Sealing}

/-- An encryption stays where it is while directories stay and its own file does. -/
theorem LiesAt.of_same (h : LiesAt store actions files loc sealing) (hWork : files'.workDir = files.workDir)
    (hDirs : ∀ l, files.lookup l = some .directory → files'.lookup l = some .directory)
    (hFile : ∀ node, files.lookup loc = some node → files'.lookup loc = some node) :
    LiesAt store actions files' loc sealing where
  reached := resolve_of_directories hWork hDirs h.reached
  apart := h.apart
  dirReached := by
    rw [destination_congr hWork]
    exact resolve_of_directories hWork hDirs h.dirReached
  dirMade := by
    rw [destination_congr hWork]
    exact hDirs _ h.dirMade
  written := by
    obtain ⟨file, mode, keys, hLookup, hSealed⟩ := h.written
    exact ⟨file, mode, keys, hFile _ hLookup, hSealed⟩

/-- Another file may be written. -/
theorem LiesAt.insert (h : LiesAt store actions files loc sealing) {other : Location}
    (hNode : files.lookup other ≠ some .directory) (hOther : loc ≠ other) (content : ByteArray)
    (mode : Nat) : LiesAt store actions (files.insert other (.file content mode)) loc sealing := by
  have hRoot := ne_root_of_lookup hNode
  refine h.of_same rfl (fun l hDir => ?_) fun node hLookup => ?_
  · rw [lookup_insert _ _ hRoot, if_neg fun hLoc : l = other => hNode (hLoc ▸ hDir), hDir]
  · rw [lookup_insert _ _ hRoot, if_neg hOther, hLookup]

/-- Another file may be taken away. -/
theorem LiesAt.erase (h : LiesAt store actions files loc sealing) {other : Location}
    (hNode : files.lookup other ≠ some .directory) (hOther : loc ≠ other) :
    LiesAt store actions (files.erase other) loc sealing := by
  have hRoot := ne_root_of_lookup hNode
  refine h.of_same rfl (fun l hDir => ?_) fun node hLookup => ?_
  · rw [lookup_erase _ hRoot, if_neg fun hLoc : l = other => hNode (hLoc ▸ hDir), hDir]
  · rw [lookup_erase _ hRoot, if_neg hOther, hLookup]

namespace Keeps

theorem start (hTree : files.WellFormed) (hNew : ∀ name content mode,
    files.lookup (files.destination store.dir ++ [name]) = some (.file content mode) →
      KeyStore.canHandle name = false) : Keeps store actions (start files) where
  tree := hTree
  keys := .empty hNew
  added key hKey := by cases hKey
  entries loc sealing hSealing := by cases hSealing

/-- Making directories does no harm. -/
theorem grows (h : Keeps store actions vault) (hTree : files.WellFormed)
    (hGrows : Grows vault.files files) : Keeps store actions { vault with files } where
  tree := hTree
  keys := h.keys.grows hGrows
  added := h.added
  entries loc sealing hSealing :=
    (h.entries loc sealing hSealing).of_same hGrows.workDir (fun _ => hGrows.keeps) fun _ => hGrows.keeps

/-- Adding a key keeps the promise. -/
theorem add (hNamed : ∃ parts name, Text.splitOnChar '/' store.dir = parts ++ [name] ∧ IsName name)
    (h : Keeps store actions vault) {key : ParsedKey} (hMem : .add key ∈ actions) :
    Keeps store actions (perform store vault (.add key)) := by
  rw [perform]
  -- an import that fails leaves directories at most; one that succeeds puts a key file besides
  rcases KeyStore.add_cases hNamed h.tree key with
    ⟨e, hError, hTree, hGrows⟩ | ⟨made, hTree, hGrows, hPath, hNode, hAdd⟩
  · rcases hAdd : store.add key.1 vault.files with ⟨reply, files⟩
    rw [hAdd] at hError hTree hGrows
    obtain rfl : reply = .error e := hError
    exact h.grows hTree hGrows
  · rw [hAdd]
    have hMade := h.grows hTree hGrows
    rw [← KeyStore.fileLocation_congr hGrows.workDir] at hPath hNode ⊢
    refine ⟨hTree.insert_file hPath hNode _ _, hMade.keys.insert_key key hPath hNode _, ?_, ?_⟩
    · intro other hOther
      dsimp only [KeyDeed.update] at hOther
      split at hOther
      · obtain rfl : key = other := Subtype.ext (Option.some.inj hOther)
        exact hMem
      · exact h.added other hOther
    · intro loc sealing hSealing
      have hLies := hMade.entries loc sealing hSealing
      exact hLies.insert hNode (hLies.apart _ _ (KeyStore.canHandle_fileName key.isValid_id)) _ _

theorem remove (hNamed : ∃ parts name, Text.splitOnChar '/' store.dir = parts ++ [name] ∧ IsName name)
    (h : Keeps store actions vault) (key : ParsedKey) :
    Keeps store actions (perform store vault (.remove key)) := by
  rw [perform]
  rcases KeyStore.remove_cases hNamed key.1 with
    ⟨e, hRemove⟩ | ⟨-, -, ⟨hMissing, hRemove⟩ | ⟨hPath, hNode, hRemove⟩⟩
  · rw [hRemove]
    exact h
  · rw [hRemove]
    dsimp only
    rw [h.keys.removed_missing key hMissing]
    exact h
  · rw [hRemove]
    refine ⟨h.tree.erase (ne_root_of_lookup hNode) hNode, h.keys.erase_key key hNode, ?_, ?_⟩
    · intro other hOther
      dsimp only [KeyDeed.update] at hOther
      split at hOther
      · cases hOther
      · exact h.added other hOther
    · intro loc sealing hSealing
      have hLies := h.entries loc sealing hSealing
      exact hLies.erase hNode (hLies.apart _ _ (KeyStore.canHandle_fileName key.isValid_id))

/-- What is encrypted is encrypted to the stored keys. -/
theorem sealed (h : Keeps store actions vault) (path : String) {root name : String}
    {plain file : ByteArray} {entropy entropy' : Entropy} {stored : List KeyPair}
    (hMem : .encrypt root name plain entropy ∈ actions) (hAll : store.all vault.files = .ok stored)
    (hEncrypt : KeyPair.encrypt plain stored entropy = (.ok file, entropy')) :
    ∃ keys, Sealed actions ⟨path, plain, vault.stored⟩ file keys := by
  obtain ⟨dir, hDir, hMade⟩ := KeyStore.Tracks.of_all_eq_ok hAll
  obtain ⟨keys, hKeys, hDistinct, hStored⟩ := h.keys.all_eq h.tree hDir hMade
  obtain rfl : stored = keys.map (·.1) := Except.ok.inj (hAll.symm.trans hKeys)
  have hNonempty : keys ≠ [] := by
    rintro rfl
    simp [KeyPair.encrypt] at hEncrypt
  rw [ParsedKey.encrypt_eq plain hNonempty entropy, Prod.mk.injEq, Except.ok.injEq] at hEncrypt
  refine ⟨keys,
    { nonempty := hNonempty
      distinct := hDistinct
      stored := fun key hKey => (hStored key).1 hKey
      listed := fun id key hKey => ?_
      added := fun key hKey => h.added key ((hStored key).1 hKey)
      encrypted := ⟨root, name, entropy, hMem, hEncrypt.1.symm⟩ }⟩
  obtain ⟨parsed, rfl, rfl, -⟩ := h.keys.complete id key hKey
  exact ⟨parsed, (hStored parsed).2 hKey, rfl, rfl⟩

/-- Writing an entry keeps the promise, and puts the entry under it. -/
theorem encrypt (h : Keeps store actions vault) {root name : String} {plain : ByteArray}
    {entropy : Entropy} (hMem : .encrypt root name plain entropy ∈ actions) :
    Keeps store actions (perform store vault (.encrypt root name plain entropy)) := by
  rw [perform]
  rcases Entries.encrypt_cases store root name plain entropy h.tree with
    ⟨e, files, entropy', hEncrypt, hTree, hGrows⟩ |
    ⟨path, stored, file, made, loc, mode, entropy', hName, hAll, hFile, hTree, hGrows, hPath, hNode,
      hEncrypt⟩
  · rw [hEncrypt]
    exact h.grows hTree hGrows
  · have hMade := h.grows hTree hGrows
    have hApart := fun dir other => Entries.resolve_ne_key hName hPath dir other
    have hPath' : (made.insert loc (.file file mode)).resolve path = .ok loc :=
      resolve_insert hNode hPath
    obtain ⟨dir, hDir, hDirMade⟩ := KeyStore.Tracks.of_all_eq_ok hAll
    obtain rfl := destination_of_resolve hDir
    obtain ⟨keys, hSealed⟩ := h.sealed path hMem hAll hFile
    rw [hEncrypt]
    simp only [hPath']
    refine ⟨hTree.insert_file hPath hNode _ _,
      hMade.keys.insert_other hNode (fun other hOther => hApart _ other hOther) _ _, h.added, ?_⟩
    intro other sealing hSealing
    dsimp only at hSealing
    -- the entry just written is under its own promise, the others lie elsewhere
    split at hSealing
    · rename_i hLoc
      subst hLoc
      obtain rfl := Option.some.inj hSealing
      have hWork : (made.insert other (.file file mode)).workDir = vault.files.workDir := hGrows.workDir
      refine ⟨hPath', hApart, ?_, ?_, file, mode, keys, ?_, hSealed⟩
      · rw [destination_congr hWork]
        exact resolve_insert hNode (hGrows.resolve hDir)
      · have hOther : vault.files.destination store.dir ≠ other := by
          rintro rfl
          exact hNode (hGrows.keeps hDirMade)
        rw [destination_congr hWork, lookup_insert _ _ (ne_root_of_lookup hNode), if_neg hOther,
          hGrows.keeps hDirMade]
      · rw [lookup_insert _ _ (ne_root_of_lookup hNode), if_pos rfl]
    · rename_i hLoc
      exact (hMade.entries other sealing hSealing).insert hNode hLoc _ _

/-- Another order of the files keeps the promise. -/
theorem reorder (h : Keeps store actions vault) (entries : List (Location × Node)) :
    Keeps store actions (perform store vault (.reorder entries)) := by
  rw [perform]
  split
  · rename_i hPerm
    have hOrder : Reordered vault.files { vault.files with entries } := ⟨rfl, hPerm⟩
    have hLookup := hOrder.lookup_eq h.tree
    refine ⟨hOrder.wellFormed h.tree, h.keys.reordered h.tree hOrder, h.added, ?_⟩
    intro loc sealing hSealing
    exact (h.entries loc sealing hSealing).of_same rfl (fun l hDir => (hLookup l).trans hDir)
      fun node hNode => (hLookup loc).trans hNode
  · exact h

/-- One action keeps what is kept. -/
theorem perform (hNamed : ∃ parts name, Text.splitOnChar '/' store.dir = parts ++ [name] ∧ IsName name)
    (h : Keeps store actions vault) {action : VaultAction} (hMem : action ∈ actions) :
    Keeps store actions (perform store vault action) := by
  cases action with
  | add key => exact h.add hNamed hMem
  | remove key => exact h.remove hNamed key
  | encrypt root name plain entropy => exact h.encrypt hMem
  | decrypt root name => exact h
  | reorder entries => exact h.reorder entries

/-- Every run of the actions keeps the promise. -/
theorem run (hNamed : ∃ parts name, Text.splitOnChar '/' store.dir = parts ++ [name] ∧ IsName name)
    (h : Keeps store actions vault) {performed : List VaultAction} (hMem : ∀ action ∈ performed, action ∈ actions) :
    Keeps store actions (run store performed vault) := by
  induction performed generalizing vault with
  | nil => exact h
  | cons action performed ih =>
      exact ih (h.perform hNamed (hMem action List.mem_cons_self))
        fun other hOther => hMem other (List.mem_cons_of_mem _ hOther)

end Keeps

/-! ### The promise of the cipher -/

/-- A list without repetitions of one thing at most has it once. -/
theorem eq_singleton {α : Type} {a : α} {as : List α} (hNonempty : as ≠ []) (hDistinct : as.Nodup)
    (hAll : ∀ b ∈ as, b = a) : as = [a] := by
  cases as with
  | nil => exact absurd rfl hNonempty
  | cons b bs =>
      obtain rfl := hAll b List.mem_cons_self
      have hEmpty : bs = [] := List.eq_nil_iff_forall_not_mem.2 fun c hc =>
        (List.nodup_cons.1 hDistinct).1 (hAll c (List.mem_cons_of_mem b hc) ▸ hc)
      rw [hEmpty]

/-- The cipher keeps its promise to the only key of a run, as long as the curve gives both sides of each
encryption one secret. -/
theorem honoured_of_sole (key : ParsedKey) (hSole : ∀ other, .add other ∈ actions → other = key)
    (hAgrees : ∀ root name plain entropy, .encrypt root name plain entropy ∈ actions →
      Age.Payload.EndsShort plain ∧ key.identity.Agrees (entropy.secretAfter 2)) :
    Honoured actions := by
  intro root name plain entropy hMem recipients hNonempty hDistinct hAdded other hOther
  obtain rfl := hSole other hOther
  obtain rfl : recipients = [other.identity.recipient] :=
    eq_singleton hNonempty hDistinct fun recipient hRecipient => by
      obtain ⟨added, hAdd, rfl⟩ := hAdded recipient hRecipient
      rw [hSole added hAdd]
  obtain ⟨hPlain, hDraw⟩ := hAgrees root name plain entropy hMem
  refine ⟨fun hRecipient => ?_, fun hStranger => absurd (List.mem_singleton.2 rfl) hStranger⟩
  refine Age.decrypt_encrypt hPlain hRecipient (fun i hi => ?_) fun i hi recipient hMember hNe =>
    absurd (List.mem_singleton.1 hMember) hNe
  obtain rfl : i = 0 := Nat.lt_one_iff.1 hi
  exact hDraw

/-! ### What can be read -/

/-- A key is kept exactly when the recipient of a stored key is one of those that were encrypted to. -/
theorem Sealed.kept_iff {file : ByteArray} {keys now : List ParsedKey}
    {stored : String → Option KeyPair} (h : Sealed actions sealing file keys)
    (hNow : ∀ key : ParsedKey, key ∈ now ↔ stored key.1.id = some key.1)
    (hListed : ∀ id key, stored id = some key → ∃ parsed ∈ now, parsed.1 = key) :
    Kept sealing.stored stored ↔
      ∃ key ∈ now, key.identity.recipient ∈ keys.map (·.identity.recipient) := by
  constructor
  · rintro ⟨id, key, key', hBefore, hAfter, hRecipient⟩
    obtain ⟨parsed, hMem, rfl, rfl⟩ := h.listed id key hBefore
    obtain ⟨parsed', hMem', rfl⟩ := hListed _ key' hAfter
    refine ⟨parsed', hMem', List.mem_map.2 ⟨parsed, hMem, ?_⟩⟩
    exact (ParsedKey.recipient_eq_iff.1 hRecipient).symm
  · rintro ⟨key, hMem, hRecipient⟩
    obtain ⟨parsed, hParsed, hSame⟩ := List.mem_map.1 hRecipient
    have hId := ParsedKey.id_eq_of_recipient hSame
    exact ⟨parsed.1.id, parsed.1, key.1, h.stored parsed hParsed, hId ▸ (hNow key).1 hMem,
      ParsedKey.recipient_eq_iff.2 hSame.symm⟩

/-- The cipher keeps its promise for what was encrypted in the run. -/
theorem Sealed.honours {file : ByteArray} {keys : List ParsedKey} (h : Sealed actions sealing file keys)
    (hHonoured : Honoured actions) {key : ParsedKey} (hKey : .add key ∈ actions) :
    (key.identity.recipient ∈ keys.map (·.identity.recipient) →
      Age.decrypt file key.identity = .ok sealing.plain) ∧
    (key.identity.recipient ∉ keys.map (·.identity.recipient) →
      ∃ fault, Age.decrypt file key.identity = .error fault) := by
  obtain ⟨root, name, entropy, hMem, rfl⟩ := h.encrypted
  have hDistinct : (keys.map (·.identity.recipient)).Nodup := by
    have hIds := h.distinct
    rw [List.Nodup, List.pairwise_map] at hIds ⊢
    exact hIds.imp fun hNe hSame => hNe (ParsedKey.id_eq_of_recipient hSame)
  have hHonours := hHonoured root name _ _ hMem (keys.map (·.identity.recipient))
    (by simpa using h.nonempty) hDistinct (by
      intro recipient hRecipient
      obtain ⟨other, hOther, rfl⟩ := List.mem_map.1 hRecipient
      exact ⟨other, h.added other hOther, rfl⟩) key hKey
  exact ⟨hHonours.opens, hHonours.refuses⟩

/-- What a vault answers about its entries. -/
structure Readable (store : KeyStore) (vault : Vault) : Prop where
  /-- The path that was written last still leads to its file. -/
  reached : ∀ loc sealing, vault.sealed loc = some sealing → vault.files.resolve sealing.path = .ok loc
  /-- By any name of the file, the last text is read exactly when a key of its encryption is stored. -/
  opens : ∀ root name path loc sealing, Entries.location root name = .ok path →
    vault.files.resolve path = .ok loc → vault.sealed loc = some sealing →
      (Entries.decrypt store root name vault.files = .ok sealing.plain ↔
        Kept sealing.stored vault.stored)
  /-- With none of these keys the entry is there, but cannot be decrypted. -/
  fails : ∀ root name path loc sealing, Entries.location root name = .ok path →
    vault.files.resolve path = .ok loc → vault.sealed loc = some sealing →
      ¬ Kept sealing.stored vault.stored →
        ∃ reason, Entries.decrypt store root name vault.files = .error (.decryptionFailed reason)
  /-- Without any key nothing is encrypted, and every file stays as it is. -/
  refused : (∀ id, vault.stored id = none) → ∀ root name plain entropy, ∃ e,
    Entries.encrypt store root name plain vault.files entropy = (.error e, vault.files, entropy)

/-- What decrypting an entry gives, in the one case and in the other. -/
theorem Keeps.decrypt_cases (h : Keeps store actions vault) (hHonoured : Honoured actions)
    {root name path : String} (hName : Entries.location root name = .ok path)
    (hPath : vault.files.resolve path = .ok loc) (hSealing : vault.sealed loc = some sealing) :
    (Kept sealing.stored vault.stored ∧
      Entries.decrypt store root name vault.files = .ok sealing.plain) ∨
    (¬ Kept sealing.stored vault.stored ∧
      ∃ reason, Entries.decrypt store root name vault.files = .error (.decryptionFailed reason)) := by
  obtain ⟨-, -, hDir, hMade, file, mode, keys, hFile, hSealed⟩ := h.entries loc sealing hSealing
  obtain ⟨now, hNow, -, hStored⟩ := h.keys.all_eq h.tree hDir hMade
  -- whether a key of the sealing is still kept is asked of the keys stored now
  have hKept := hSealed.kept_iff hStored fun id key hKey => by
    obtain ⟨parsed, rfl, rfl, -⟩ := h.keys.complete id key hKey
    exact ⟨parsed, (hStored parsed).2 hKey, rfl⟩
  have hHonours {key : ParsedKey} (hKey : key ∈ now) :=
    hSealed.honours hHonoured (h.added key ((hStored key).1 hKey))
  rw [Entries.decrypt_of_file hName hPath hFile hNow, hKept]
  rcases Entries.openWith_cases now "no keys stored" with
    ⟨key, hKey, plain, hOpen, hResult⟩ | ⟨hNone, hResult⟩
  · have hRecipient : key.identity.recipient ∈ keys.map (·.identity.recipient) := by
      by_contra hStranger
      obtain ⟨fault, hRefused⟩ := (hHonours hKey).2 hStranger
      rw [hOpen] at hRefused
      cases hRefused
    rw [(hHonours hKey).1 hRecipient, Except.ok.injEq] at hOpen
    exact .inl ⟨⟨key, hKey, hRecipient⟩, by rw [hResult, hOpen]⟩
  · refine .inr ⟨?_, hResult⟩
    rintro ⟨key, hKey, hRecipient⟩
    obtain ⟨fault, hRefused⟩ := hNone key hKey
    rw [(hHonours hKey).1 hRecipient] at hRefused
    cases hRefused

/-- A vault that keeps its promise is readable, where the promises of age are honoured. -/
theorem Keeps.readable (h : Keeps store actions vault) (hHonoured : Honoured actions) :
    Readable store vault where
  reached loc sealing hSealing := (h.entries loc sealing hSealing).reached
  opens root name path loc sealing hName hPath hSealing := by
    rcases h.decrypt_cases hHonoured hName hPath hSealing with ⟨hKept, hResult⟩ | ⟨hLost, reason, hResult⟩
    · simp [hResult, hKept]
    · simp [hResult, hLost]
  fails root name path loc sealing hName hPath hSealing hLost := by
    rcases h.decrypt_cases hHonoured hName hPath hSealing with ⟨hKept, -⟩ | ⟨-, hResult⟩
    · exact absurd hKept hLost
    · exact hResult
  refused hNone := Entries.encrypt_of_no_key fun stored hAll => by
    obtain ⟨dir, hDir, hMade⟩ := KeyStore.Tracks.of_all_eq_ok hAll
    obtain ⟨keys, hKeys, -, hStored⟩ := h.keys.all_eq h.tree hDir hMade
    obtain rfl : stored = keys.map (·.1) := Except.ok.inj (hAll.symm.trans hKeys)
    have hEmpty : keys = [] := List.eq_nil_iff_forall_not_mem.2 fun key hKey => by
      have := (hStored key).1 hKey
      rw [hNone] at this
      cases this
    rw [hEmpty, List.map_nil]

/-- Entries are readable exactly while a key is kept. Whatever keys were added and removed, entries
written, over each other too and by whatever names, and in whatever order directories list what they
have: the text that was encrypted last to a file is read back as long as one of the keys that were
stored then is stored, and cannot be decrypted otherwise. At the start the directory of keys, if it is
there, has no key file in it. -/
theorem run_readable {dataDir : String} (hTree : files.WellFormed) (hNew : ∀ name content mode,
      files.lookup (files.destination (KeyStore.inData dataDir).dir ++ [name]) =
        some (.file content mode) → KeyStore.canHandle name = false)
    (actions : List VaultAction) (hHonoured : Honoured actions) :
    Readable (.inData dataDir) (run (.inData dataDir) actions (.start files)) := by
  obtain ⟨parts, hParts⟩ := KeyStore.inData_named dataDir
  have hNamed : ∃ parts name, Text.splitOnChar '/' (KeyStore.inData dataDir).dir = parts ++ [name] ∧
      IsName name := ⟨parts, "keys", hParts, by unfold IsName; decide⟩
  exact ((Keeps.start hTree hNew).run hNamed fun _ => id).readable hHonoured

/-- A vault in which a key is added and something is encrypted to it. -/
theorem run_readable_of_mail :
    (⟨[], []⟩ : Files).WellFormed ∧ Readable (.inData "data")
      (run (.inData "data")
        [.add (.ofIdentity ⟨Bytes.replicate 32 7⟩ rfl),
          .encrypt "store" "mail" "secret".toUTF8 ⟨ByteArray.empty, 0⟩]
        (.start ⟨[], []⟩)) := by
  have hTree : (⟨[], []⟩ : Files).WellFormed :=
    { distinct := .nil, rooted := by simp, parents := by simp, workDir := rfl }
  have hIdentity := ParsedKey.identity_ofIdentity ⟨Bytes.replicate 32 7⟩ rfl
  have hDraw : Age.Identity.Agrees ⟨Bytes.replicate 32 7⟩ (Entropy.secretAfter ⟨ByteArray.empty, 0⟩ 2) :=
    ⟨by decide +kernel, by decide +kernel⟩
  -- From here on the key is any key that the draw agrees with, so that its id is not computed.
  rw [← hIdentity] at hDraw
  clear hIdentity
  generalize ParsedKey.ofIdentity ⟨Bytes.replicate 32 7⟩ rfl = key at hDraw ⊢
  refine ⟨hTree, run_readable hTree (fun name content mode h => ?_) _ (honoured_of_sole key ?_ ?_)⟩
  · rw [lookup_of_ne_root (by simp)] at h
    cases h
  · intro other hOther
    simpa using hOther
  · intro root name plain entropy hMem
    obtain ⟨rfl, rfl, rfl, rfl⟩ : root = "store" ∧ name = "mail" ∧ plain = "secret".toUTF8 ∧
        entropy = ⟨ByteArray.empty, 0⟩ := by simpa using hMem
    exact ⟨by unfold Age.Payload.EndsShort; decide, hDraw⟩

end Vault

end VaultSync
