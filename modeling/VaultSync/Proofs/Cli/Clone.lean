import VaultSync.Cli.Syncing
import VaultSync.Proofs.Files.Spares
import VaultSync.Proofs.Sync.Invariant

/-! What a clone can take away. It writes and removes below its work tree and puts down the two files of a
key, and nothing else. That the work tree is vacant is looked at first, before the user is asked and before
anything is made, so it only holds for a path that can be followed by then. -/
namespace VaultSync

open Files (Spares Covers)

/-! ### The repository -/

namespace Git.Host

variable {area : Location → Prop} {root : Location}

/-- A file of the work tree is written below the root alone. -/
theorem writeBelow_spares (hRoot : Covers area root) (files : Files) (path : TreePath)
    (content : ByteArray) : Spares area files (writeBelow root files path content) := by
  rw [writeBelow]
  refine (Spares.foldl (fun files i => ?_) (List.range path.length) files).trans
    ((Spares.removeBelow _ (hRoot.of_prefix (List.prefix_append root path))).trans
      (Spares.insert _ _ (hRoot _ (List.prefix_append root path))))
  dsimp only
  split
  · exact .refl area files
  · exact .insert files .directory (hRoot _ (List.prefix_append root _))

/-- A new work tree has nothing to take away. -/
theorem writeTree_spares (hRoot : Covers area root) (new : Tree) (files : Files) :
    Spares area files (writeTree root .empty new files) := by
  rw [writeTree]
  refine Spares.foldl (fun files e => ?_) new.entries files
  split
  · exact .refl area files
  · exact writeBelow_spares hRoot files e.1 e.2

/-- What a repository keeps of its own is written below its root. -/
theorem writeOwn_spares (hRoot : Covers area root) (repo : Repository) (files : Files) :
    Spares area files (writeOwn root repo files) := by
  have hDirectory : Covers area (repo.directory root) := by
    rw [Repository.directory]
    split
    · exact hRoot
    · exact hRoot.of_prefix (List.prefix_append root _)
  exact (writeBelow_spares hDirectory files _ _).trans (writeBelow_spares hDirectory _ _ _)

/-- A repository that is created touches nothing outside its root. -/
theorem create_spares (hRoot : Covers area root) (host : Host) (c : Checkout) :
    Spares area host.files (host.create root c).files :=
  (writeOwn_spares hRoot c.toRepository host.files).trans (writeTree_spares hRoot c.work _)

/-- A clone that fails takes nothing away outside of its work tree, and one that succeeds writes nothing
there. -/
theorem clone_spares (host : Host) (url path : String) (hArea : Covers area (host.files.destination path)) :
    Spares area host.files (host.clone url path).2.files := by
  have hMade : Spares area host.files (host.files.createDirAll path).2 := .createDirAll host.files path
  rw [clone]
  split
  · exact .refl area host.files
  · split
    · rename_i hCreated
      rw [hCreated] at hMade
      exact hMade
    · rename_i files hCreated
      replace hMade : Spares area host.files files := by rwa [hCreated] at hMade
      have hThere : Covers area (files.destination path) := hMade.destination_eq path ▸ hArea
      split
      · rename_i loc _ hPath
        exact hMade.trans (create_spares (Files.destination_of_resolve hPath ▸ hThere) ⟨files, _⟩ _)
      · dsimp only
        split
        · exact hMade
        · exact hMade.trans (.removeDirAll files hThere)
      · exact .refl area host.files

end Git.Host

/-! ### The key -/

variable {area : Location → Prop}

namespace Ssh.Keygen

/-- A key pair that is saved touches the two files of its name. -/
theorem save_spares {path : String} {files : Files} (check seed : ByteArray)
    (hKey : area (files.destination path)) (hPublic : area (files.destination (path ++ ".pub"))) :
    Spares area files (save path check seed files).2 := by
  rw [save]
  split
  · exact .refl area files
  · rename_i files' hSaved
    have hKept : Spares area files files' := .replace hSaved hKey
    dsimp only
    split
    · exact hKept
    · rename_i files'' hWritten
      exact hKept.trans (.write hWritten (hKept.destination_eq _ ▸ hPublic))

/-- A key pair that is generated touches the two files of its name. -/
theorem generate_spares (keygen : Keygen) {path : String} {files : Files} (entropy : Entropy)
    (hKey : area (files.destination path)) (hPublic : area (files.destination (path ++ ".pub"))) :
    Spares area files (keygen.generate path files entropy).2.1 := by
  have hMade : Spares area files (files.createParents path).2 := .createParents files path
  rw [generate]
  split
  · exact .refl area files
  · generalize files.createParents path = made at hMade ⊢
    rcases made with ⟨e | _, files'⟩
    · exact hMade
    · dsimp only
      split
      · exact hMade
      · split
        · exact hMade
        · have hSaved := hMade.trans (save_spares ((entropy.draw 32).2.draw 4).1 (entropy.draw 32).1
            (hMade.destination_eq _ ▸ hKey) (hMade.destination_eq _ ▸ hPublic))
          generalize save path _ _ files' = saved at hSaved ⊢
          rcases saved with ⟨_ | text, files''⟩ <;> exact hSaved

end Ssh.Keygen

namespace Cli.Machine

/-- A key that is imported touches its target alone. -/
theorem importKey_spares (source : String) {dest : String} {files : Files}
    (hKey : area (files.destination dest)) : Spares area files (importKey source dest files).2 := by
  have hMade : Spares area files (files.createParents dest).2 := .createParents files dest
  rw [importKey]
  split
  · exact .refl area files
  · generalize files.createParents dest = made at hMade ⊢
    rcases made with ⟨e | _, files'⟩
    · exact hMade
    · dsimp only
      split
      · exact hMade
      · rename_i files'' hCopied
        obtain ⟨content, -, hCopied⟩ := bind_eq_ok.1 hCopied
        obtain ⟨written, hWritten, hCopied⟩ := bind_eq_ok.1 hCopied
        have hWrote : Spares area files written :=
          hMade.trans (.write hWritten (hMade.destination_eq dest ▸ hKey))
        exact hWrote.trans (.setMode hCopied (hWrote.destination_eq dest ▸ hKey))

theorem files_withFiles (files : Files) (m : Machine) : (m.withFiles files).files = files := rfl

/-- Providing a key makes the two files of a key, and nothing else. -/
theorem provision_spares (keygen : Ssh.Keygen) (choice : KeyChoice) {dest : String} {m : Machine}
    (hKey : area (m.files.destination dest)) (hPublic : area (m.files.destination (dest ++ ".pub"))) :
    Spares area m.files (m.provision keygen choice dest).2.files := by
  cases choice with
  | cancel => exact .refl area m.files
  | generate => exact keygen.generate_spares m.entropy hKey hPublic
  | importFile =>
      -- the question is answered before the file is looked at, and reading an answer changes no file
      have hFiles : (m.complain keyPathQuestion).readLine.2.files = m.files := rfl
      rw [provision]
      split
      · rename_i hLine
        rw [hLine] at hFiles
        exact hFiles ▸ .refl area m.files
      · rename_i hLine
        rw [hLine] at hFiles
        exact hFiles ▸ .refl area m.files
      · rename_i line m' hLine
        replace hFiles : m'.files = m.files := by rwa [hLine] at hFiles
        have hKept := importKey_spares (Text.trim line) (hFiles.symm ▸ hKey)
        rw [hFiles] at hKept
        dsimp only
        rw [files_withFiles, hFiles]
        exact hKept

/-- A machine that has all that some files had outside of an area. -/
def Spared (area : Location → Prop) (files : Files) (m : Machine) : Prop :=
  Spares area files m.files

/-- Authentication takes nothing away but what lies in place of the two files of the key. -/
theorem services_keep (keygen : Ssh.Keygen) (keyPath : String) (files : Files)
    (hKey : area (files.destination keyPath)) (hPublic : area (files.destination (keyPath ++ ".pub"))) :
    (services keygen).Keeps keyPath (Spared area files) where
  ask _ _ h := h
  choose _ h := h
  provision choice m h := by
    have hSame (path : String) : m.files.destination path = files.destination path := h.destination_eq path
    exact h.trans (provision_spares keygen choice (hSame keyPath ▸ hKey) (hSame (keyPath ++ ".pub") ▸ hPublic))
  isEncrypted _ h := h
  verify _ _ h := h

end Cli.Machine

namespace Cli

/-- What a clone may change: the two files of the key, and its work tree. -/
def cloneArea (config : Config) (dataDir : String) (files : Files) (loc : Location) : Prop :=
  loc = files.destination (config.sshKeyPath dataDir) ∨
    loc = files.destination (config.sshKeyPath dataDir ++ ".pub") ∨
    files.destination (config.storeDir dataDir) <+: loc

/-- A clone after authentication stays within its area, whatever the backend that clones does below the
work tree, and however authentication and the clone end. -/
theorem executeAfterAuthentication_spares (keygen : Ssh.Keygen) (config : Config) (dataDir url : String)
    (backend : Backend Machine) (m : Machine)
    (hBackend : ∀ credential m', m'.files.destination (config.storeDir dataDir) =
        m.files.destination (config.storeDir dataDir) →
      Spares (cloneArea config dataDir m.files) m'.files
        (backend.perform (.plain (.clone url (config.storeDir dataDir))) credential m').2.files) :
    (executeAfterAuthentication (Machine.services keygen) backend
      (Machine.filesPart.hooks (cloneCleanup (config.storeDir dataDir))) (config.authRequest dataDir)
      (.clone url (config.storeDir dataDir)) m).2.Spared (cloneArea config dataDir m.files) m.files := by
  have hStore : Covers (cloneArea config dataDir m.files) (m.files.destination (config.storeDir dataDir)) :=
    fun _ hPrefix => .inr (.inr hPrefix)
  have hServices : (Machine.services keygen).Keeps (config.authRequest dataDir).keyPath
      (Machine.Spared (cloneArea config dataDir m.files) m.files) :=
    Machine.services_keep keygen _ m.files (.inl rfl) (.inr (.inl rfl))
  refine executeAfterAuthentication_keeps hServices ?_ (fun _ _ h => h) ?_ (.refl _ m.files)
  · intro credential command hCommand m' h
    rw [Operation.clone, List.mem_singleton] at hCommand
    subst hCommand
    exact h.trans (hBackend credential m' (h.destination_eq _))
  · intro error m' h
    have hThere : Covers (cloneArea config dataDir m.files)
        (m'.files.destination (config.storeDir dataDir)) := h.destination_eq _ ▸ hStore
    exact h.trans (.removeDirAll m'.files hThere)

/-- The repository at the store is cloned without touching anything outside of it. -/
theorem storeBackend_spares (config : Config) (dataDir url : String) (credential : Credential) (m m' : Machine)
    (h : m'.files.destination (config.storeDir dataDir) = m.files.destination (config.storeDir dataDir)) :
    Spares (cloneArea config dataDir m.files) m'.files
      ((storeBackend config dataDir).perform (.plain (.clone url (config.storeDir dataDir)))
        credential m').2.files :=
  Git.Host.clone_spares m'.host url _ fun _ hPrefix => .inr (.inr (h ▸ hPrefix))

theorem files_headline (json : Bool) (text : String) (m : Machine) :
    (m.headline json text).files = m.files := by
  cases json <;> rfl

theorem files_report (json : Bool) (outcome : SyncOutcome) (m : Machine) :
    (m.report json outcome).files = m.files := by
  cases json <;> rfl

/-- The files after an operation are those after its run, since only output follows. -/
theorem files_runOperation (keygen : Ssh.Keygen) (dataDir : String) (config : Config) (json : Bool)
    (hooks : Hooks Machine) (operation : Operation) (m : Machine) :
    (runOperation keygen dataDir config json hooks operation m).2.files =
      (executeAfterAuthentication (Machine.services keygen) (storeBackend config dataDir) hooks
        (config.authRequest dataDir) operation m).2.files := by
  rw [runOperation]
  rcases executeAfterAuthentication _ _ hooks _ operation m with ⟨e | outcome, m'⟩
  · rfl
  · exact files_report json outcome m'

/-- A clone may be put in an empty directory, but in no other. -/
theorem children_of_checkVacant {files : Files} {storeDir : String} {root : Location}
    (hVacant : checkVacant storeDir files = .ok ()) (hPath : files.resolve storeDir = .ok root)
    (hRoot : files.lookup root = some .directory) : files.children root = [] := by
  rw [checkVacant, Files.stat_of_resolve hPath, hRoot, hPath] at hVacant
  dsimp only [Option.elim] at hVacant
  split at hVacant
  · rename_i hNone
    exact List.isEmpty_iff.1 hNone
  · cases hVacant

/-- What lies at a place that a clone may be put at, or below it, is an empty directory. -/
theorem empty_of_checkVacant {files : Files} (hTree : files.WellFormed) {storeDir : String}
    {root loc : Location} {node : Node} (hVacant : checkVacant storeDir files = .ok ())
    (hPath : files.resolve storeDir = .ok root) (hPrefix : root <+: loc)
    (hNode : files.lookup loc = some node) :
    loc = root ∧ node = .directory ∧ files.children loc = [] := by
  obtain ⟨names, rfl⟩ := hPrefix
  by_cases hNames : names = []
  · subst hNames
    rw [List.append_nil] at hNode ⊢
    cases node with
    | file content mode =>
        rw [checkVacant, Files.stat_of_resolve hPath, hNode] at hVacant
        cases hVacant
    | directory => exact ⟨rfl, rfl, children_of_checkVacant hVacant hPath hNode⟩
  · obtain ⟨hRoot, hChildren⟩ := hTree.exists_child hNames hNode
    exact absurd (children_of_checkVacant hVacant hPath hRoot) hChildren

/-- A clone leaves everything where it was, files with their content and directories, however
authentication, the transport and the cleanup end. Exceptions are the two files of the configured key and
the empty directory that the store may be, and all that lies where the store comes to lie if its path could
not be followed before, as when it leads through a directory that was still missing: nothing is looked at
there, and a clone that fails removes it. -/
theorem cloneStore_keeps (keygen : Ssh.Keygen) (dataDir url : String) (json : Bool) (m : Machine)
    (hTree : m.files.WellFormed) {loc : Location} {node : Node} (hNode : m.files.lookup loc = some node) :
    (cloneStore keygen dataDir url json m).2.files.lookup loc = some node ∨
    ∃ config, Config.load m.files dataDir = .ok config ∧
      (loc = m.files.destination (config.sshKeyPath dataDir) ∨
        loc = m.files.destination (config.sshKeyPath dataDir ++ ".pub") ∨
        loc = m.files.destination (config.storeDir dataDir) ∧ node = .directory ∧ m.files.children loc = [] ∨
        (∀ root, m.files.resolve (config.storeDir dataDir) ≠ .ok root) ∧
          m.files.destination (config.storeDir dataDir) <+: loc) := by
  rw [cloneStore]
  cases hLoad : Config.load m.files dataDir with
  | error e => exact .inl hNode
  | ok config =>
      dsimp only
      cases hVacant : checkVacant (config.storeDir dataDir) m.files with
      | error e => exact .inl hNode
      | ok =>
          -- inside the area that cloning may write to each part is named; everything outside is spared
          by_cases hArea : cloneArea config dataDir m.files loc
          · refine .inr ⟨config, rfl, ?_⟩
            rcases hArea with hKey | hPublic | hStore
            · exact .inl hKey
            · exact .inr (.inl hPublic)
            · by_cases hPath : ∃ root, m.files.resolve (config.storeDir dataDir) = .ok root
              · obtain ⟨root, hPath⟩ := hPath
                have hRoot := Files.destination_of_resolve hPath
                rw [hRoot] at hStore ⊢
                exact .inr (.inr (.inl (empty_of_checkVacant hTree hVacant hPath hStore hNode)))
              · exact .inr (.inr (.inr ⟨fun root hRoot => hPath ⟨root, hRoot⟩, hStore⟩))
          · left
            have hSpared := executeAfterAuthentication_spares keygen config dataDir url
              (storeBackend config dataDir) (m.headline json ("Cloning " ++ url))
              fun credential m' h => storeBackend_spares config dataDir url credential _ m' h
            rw [files_headline] at hSpared
            dsimp only
            rw [files_runOperation]
            exact hSpared.lookup loc node hArea hNode

/-- A vault with one key, whose store is configured to lie at a path, and a user who types a password. -/
def vaultWithStoreAt (path : String) : Machine where
  host :=
    { files :=
        { workDir := []
          entries := [(["data"], .directory),
            (["data", "config.toml"], .file ("[repository]\npath = \"" ++ path ++
              "\"\n[connection]\nmode = \"password\"\n").toUTF8 Files.defaultMode),
            (["data", "keys"], .directory),
            (["data", "keys", "one.key"], .file "secret".toUTF8 Ssh.Keygen.privateMode)] }
      repositories := [] }
  entropy := ⟨.empty, 0⟩
  input := "pw\n".toUTF8.toList
  out := .empty
  err := .empty

theorem wellFormed_vaultWithStoreAt (path : String) : (vaultWithStoreAt path).files.WellFormed where
  distinct := by
    show List.Nodup [["data"], ["data", "config.toml"], ["data", "keys"], ["data", "keys", "one.key"]]
    decide
  rooted := by simp [vaultWithStoreAt, Machine.files]
  parents e hMem := by
    simp only [vaultWithStoreAt, Machine.files, List.mem_cons, List.not_mem_nil, or_false] at hMem
    rcases hMem with rfl | rfl | rfl | rfl <;> rfl
  workDir := rfl

/-- A clone that fails beside the keys leaves them. -/
theorem cloneStore_keeps_key :
    let key := Node.file "secret".toUTF8 Ssh.Keygen.privateMode
    (vaultWithStoreAt "store").files.WellFormed ∧
      (vaultWithStoreAt "store").files.lookup ["data", "keys", "one.key"] = some key ∧
      (cloneStore ⟨false⟩ "/data" "/nowhere" false (vaultWithStoreAt "store")).2.files.lookup
        ["data", "keys", "one.key"] = some key := by
  intro key
  have hTree := wellFormed_vaultWithStoreAt "store"
  have hKey : (vaultWithStoreAt "store").files.lookup ["data", "keys", "one.key"] = some key := rfl
  refine ⟨hTree, hKey, ?_⟩
  rcases cloneStore_keeps ⟨false⟩ "/data" "/nowhere" false (vaultWithStoreAt "store") hTree hKey with
    hKept | ⟨config, hLoad, hLost⟩
  · exact hKept
  · have hPaths : (Config.load (vaultWithStoreAt "store").files "/data").toOption.map
        (fun c => (c.sshKeyPath "/data", c.storeDir "/data")) = some ("/data/.ssh_key", "/data/store") := by
      decide +kernel
    rw [hLoad] at hPaths
    obtain ⟨hKeyPath, hStore⟩ := Prod.mk.inj (Option.some.inj hPaths)
    rw [hKeyPath, hStore] at hLost
    rcases hLost with hLost | hLost | ⟨hLost, -⟩ | ⟨-, hLost⟩ <;> exact absurd hLost (by decide +kernel)

/-- With the store at the keys, behind a directory that is missing, a clone that fails removes the keys. -/
theorem cloneStore_removes_key :
    let vault := vaultWithStoreAt "x/../keys"
    vault.files.WellFormed ∧ vault.files.lookup ["data", "keys", "one.key"] =
        some (.file "secret".toUTF8 Ssh.Keygen.privateMode) ∧
      (Config.load vault.files "/data").toOption.map (fun c => c.sshKeyPath "/data") =
        some "/data/.ssh_key" ∧
      (cloneStore ⟨false⟩ "/data" "/nowhere" false vault).2.files.lookup ["data", "keys", "one.key"] =
        none :=
  ⟨wellFormed_vaultWithStoreAt "x/../keys", by decide +kernel⟩

end Cli

end VaultSync
