import VaultSync.Proofs.Cli.Entries
import VaultSync.Proofs.Config.Saving

/-! Vaults that are set up. Whatever mode and user name are asked for, the configuration that is written can
be loaded, and the first key that is made leaves it alone. -/
namespace VaultSync

open Files

variable {files files' : Files} {dataDir mode username : String} {config : Config} {noKey : Bool}

/-! ### The first key -/

/-- Adding a key leaves the configuration alone, also when it fails. -/
theorem KeyStore.load_add {store : KeyStore}
    (hNamed : ∃ parts name, Text.splitOnChar '/' store.dir = parts ++ [name] ∧ IsName name) (key : KeyPair)
    (h : Config.load files dataDir = .ok config) :
    Config.load (store.add key files).2 dataDir = .ok config := by
  rw [add, keyFile, KeyId.validate]
  cases hId : KeyId.isValid key.id with
  | false => exact h
  | true =>
      have hMade : Config.load (files.createDirAll store.dir).2 dataDir = .ok config := by
        have hSpares : Spares (fun _ => False) files (files.createDirAll store.dir).2 :=
          Spares.createDirAll files store.dir
        exact Config.load_of_spares hSpares (fun _ => hSpares.lookup _ _ not_false) (fun _ => not_false) h
      simp only [if_true, bind, Except.bind, pure, Except.pure]
      generalize files.createDirAll store.dir = step at hMade ⊢
      obtain ⟨reply, made⟩ := step
      cases reply with
      | error e => exact hMade
      | ok =>
          cases hReplace : made.replace (store.pathOf (fileName key.id)) key.secret fileMode with
          | error e => simpa only [hReplace] using hMade
          | ok files' =>
              obtain ⟨loc, hPath, hNode, rfl⟩ := replace_eq_ok hReplace
              obtain ⟨rfl, -⟩ := resolve_file hNamed hId hPath
              simp only [hReplace]
              have hSpares : Spares (· = store.fileLocation made key.id) made
                  (made.insert (store.fileLocation made key.id) (.file key.secret fileMode)) :=
                Spares.insert made _ rfl
              refine Config.load_of_spares hSpares (fun _ => lookup_insert_directory _ _ hNode)
                (fun dir hLoc => ?_) hMade
              -- a key file would have to be called as the configuration is
              have hName : Config.fileName = fileName key.id :=
                List.singleton_inj.1 (List.append_inj_right' hLoc rfl)
              have hHandled : canHandle Config.fileName = true := hName ▸ canHandle_fileName hId
              exact absurd hHandled (by decide)

/-- Making a key does not touch the configuration. -/
theorem KeyStore.load_generate (created : String) (entropy : Entropy)
    (h : Config.load files dataDir = .ok config) :
    Config.load ((KeyStore.inData dataDir).generate created files entropy).2.1 dataDir = .ok config := by
  rw [generate]
  rcases KeyPair.generate created entropy with ⟨_ | key, entropy'⟩
  · exact h
  · have hAdd := load_add (inData_isNamed dataDir) key h
    dsimp only
    generalize (inData dataDir).add key files = step at hAdd ⊢
    obtain ⟨_ | _, files'⟩ := step <;> exact hAdd

/-! ### Setting up -/

namespace Config

/-- The configuration that a vault is set up with. -/
def initial (mode username : String) : Config :=
  { Config.default with
    connection := { Config.default.connection with mode := (ConnectionMode.ofTag mode).tag, username } }

theorem initial_version (mode username : String) : (initial mode username).formatVersion < wordLimit := by
  have hFormat : (initial mode username).formatVersion = 1 := rfl
  rw [hFormat, wordLimit]
  decide

/-- A first configuration passes every check. -/
theorem initial_rules (mode username : String) : ∀ rule ∈ (initial mode username).rules, rule.Holds := by
  have hRules : (initial mode username).rules = Config.default.rules := by simp only [rules, remoteRule, initial]
  rw [hRules]
  exact default_rules

/-- A mode is read back from its tag. -/
theorem ofTag_tag (mode : ConnectionMode) : ConnectionMode.ofTag mode.tag = mode := by
  cases mode <;> decide

/-- A first configuration has the mode that was asked for. -/
theorem connectionMode_initial (mode username : String) :
    (initial mode username).connectionMode = ConnectionMode.ofTag mode := by
  simp only [connectionMode, initial, ofTag_tag]

end Config

namespace Cli

variable {around : Surroundings} {args : List String} {m : Machine} {now : Moment} {saved : Files} {e : VaultError}

theorem Asks.run_setUp (h : Asks around args dataDir (.setUp mode username noKey)) (m : Machine) :
    run around args m = conclude (setUp around.now dataDir mode username noKey m) := by
  obtain ⟨json, hRun⟩ := h.run_eq m
  exact hRun

theorem Machine.files_announce (key : KeyPair) (place : String) (m : Machine) :
    (m.announce key place).files = m.files := by
  rw [announce]
  cases key.recipientText? <;> rfl

/-- The files after the first key are those of its making. -/
theorem files_makeFirstKey (now : Moment) (dataDir : String) (m : Machine) :
    (conclude (makeFirstKey now dataDir m)).2.files =
      ((KeyStore.inData dataDir).generate now.stamp m.files m.entropy).2.1 := by
  rw [makeFirstKey]
  rcases (KeyStore.inData dataDir).generate now.stamp m.files m.entropy with ⟨_ | key, files, entropy⟩
  · rfl
  · exact Machine.files_announce key _ _

/-- What becomes of an attempt to set up what has a configuration already. -/
def refused (dataDir : String) (m : Machine) : Nat × Machine :=
  (failureCode, m.complain (Printed.error ("Error: " ++
    (VaultError.invalidConfig ("passync is already initialized in " ++ dataDir)).message)))

theorem setUp_of_has (h : m.files.has (Config.pathIn dataDir) = true) :
    conclude (setUp now dataDir mode username noKey m) = refused dataDir m := by
  rw [setUp, if_pos h]
  rfl

/-- What a machine shows while a vault is set up on it. -/
def settingUp (m : Machine) : Machine :=
  m.print (Printed.header "passync: initializing")

def wrote (dataDir : String) (saved : Files) (m : Machine) : Machine :=
  ((settingUp m).withFiles saved).print (Printed.success ("Wrote " ++ Config.pathIn dataDir))

theorem files_wrote (dataDir : String) (saved : Files) (m : Machine) : (wrote dataDir saved m).files = saved := rfl

theorem entropy_wrote (dataDir : String) (saved : Files) (m : Machine) :
    (wrote dataDir saved m).entropy = m.entropy := rfl

/-- Setting up saves the first configuration, then makes a key where one is wanted. -/
theorem setUp_of_missing (h : m.files.has (Config.pathIn dataDir) = false) :
    setUp now dataDir mode username noKey m = match (Config.initial mode username).save m.files dataDir with
      | (.error e, made) => (.error e, (settingUp m).withFiles made)
      | (.ok (), saved) =>
        if noKey then (.ok 0, (wrote dataDir saved m).print withoutKey)
        else makeFirstKey now dataDir (wrote dataDir saved m) := by
  rw [setUp, if_neg (by rw [h]; exact Bool.false_ne_true)]
  rfl

/-- The first key decides on the exit code. -/
theorem code_makeFirstKey (now : Moment) (dataDir : String) (m : Machine) :
    (conclude (makeFirstKey now dataDir m)).1 = 0 ↔
      ∃ key, ((KeyStore.inData dataDir).generate now.stamp m.files m.entropy).1 = .ok key := by
  rw [makeFirstKey]
  rcases (KeyStore.inData dataDir).generate now.stamp m.files m.entropy with ⟨_ | key, files, entropy⟩
  · simp [conclude, failureCode]
  · simp [conclude]

/-- Once the configuration is saved a vault is set up unless its first key cannot be stored. -/
theorem conclude_setUp_saved (hFree : m.files.has (Config.pathIn dataDir) = false)
    (hSave : (Config.initial mode username).save m.files dataDir = (.ok (), saved)) :
    (noKey = true → (conclude (setUp now dataDir mode username noKey m)).1 = 0) ∧
    (noKey = false →
      ((conclude (setUp now dataDir mode username noKey m)).1 = 0 ↔
        ∃ key, ((KeyStore.inData dataDir).generate now.stamp saved m.entropy).1 = .ok key) ∧
      (conclude (setUp now dataDir mode username noKey m)).2.files =
        ((KeyStore.inData dataDir).generate now.stamp saved m.entropy).2.1) := by
  rw [setUp_of_missing hFree, hSave]
  dsimp only
  refine ⟨fun hNoKey => ?_, fun hKey => ?_⟩
  · rw [if_pos hNoKey]
    rfl
  · have hCode := code_makeFirstKey now dataDir (wrote dataDir saved m)
    have hFiles := files_makeFirstKey now dataDir (wrote dataDir saved m)
    rw [files_wrote, entropy_wrote] at hCode hFiles
    rw [hKey, if_neg Bool.false_ne_true]
    exact ⟨hCode, hFiles⟩

/-- A vault is set up without an error exactly when its configuration can be saved and its first key stored. -/
theorem code_setUp (hFree : m.files.has (Config.pathIn dataDir) = false) :
    (conclude (setUp now dataDir mode username noKey m)).1 = 0 ↔
      ∃ saved, (Config.initial mode username).save m.files dataDir = (.ok (), saved) ∧
        (noKey = true ∨ ∃ key, ((KeyStore.inData dataDir).generate now.stamp saved m.entropy).1 = .ok key) := by
  rcases hSave : (Config.initial mode username).save m.files dataDir with ⟨e | _, saved⟩
  · rw [setUp_of_missing hFree, hSave]
    simp [conclude, failureCode]
  · cases noKey with
    | true => exact iff_of_true ((conclude_setUp_saved hFree hSave).1 rfl) ⟨saved, rfl, .inl rfl⟩
    | false =>
        rw [((conclude_setUp_saved hFree hSave).2 rfl).1]
        simp

/-- Once the configuration is saved it can be loaded, whatever becomes of the first key. -/
theorem load_setUp_of_saved (hFree : m.files.has (Config.pathIn dataDir) = false)
    (hSave : (Config.initial mode username).save m.files dataDir = (.ok (), saved)) :
    Config.load (conclude (setUp now dataDir mode username noKey m)).2.files dataDir =
      .ok (.initial mode username) := by
  have hLoad : Config.load saved dataDir = .ok (.initial mode username) :=
    (Config.load_saved (Config.initial_version mode username) hSave).1.2 ⟨le_rfl, Config.initial_rules mode username⟩
  cases noKey with
  | true =>
      rw [setUp_of_missing hFree, hSave]
      exact hLoad
  | false =>
      rw [((conclude_setUp_saved hFree hSave).2 rfl).2]
      exact KeyStore.load_generate _ _ hLoad

/-- A vault that was set up without an error has the configuration that was asked for. -/
theorem load_setUp (h : (conclude (setUp now dataDir mode username noKey m)).1 = 0) :
    Config.load (conclude (setUp now dataDir mode username noKey m)).2.files dataDir =
      .ok (.initial mode username) := by
  cases hHas : m.files.has (Config.pathIn dataDir) with
  | true =>
      rw [setUp_of_has hHas] at h
      cases h
  | false =>
      obtain ⟨saved, hSave, -⟩ := (code_setUp hHas).1 h
      exact load_setUp_of_saved hHas hSave

/-- A configuration that was saved, whatever texts are in it, is loaded as it was if its format is known and
it breaks no rule. A newer format is refused for its version, and any other one for the first rule that it
breaks. A vault that was set up can always be loaded, with the user name and the mode that were asked for. -/
theorem load_saved_or_set_up :
    (∀ (config : Config) (files files' : Files) (dataDir : String), config.formatVersion < 2 ^ 32 →
      config.save files dataDir = (.ok (), files') →
      (Config.load files' dataDir = .ok config ↔
        config.formatVersion ≤ 1 ∧ Config.NotBlank config.repository.remote ∧
          Config.NotBlank config.repository.branch ∧ Config.NotBlank config.author.name ∧
          Config.NotBlank config.author.email ∧ '/' ∉ config.repository.remote.toList) ∧
      (1 < config.formatVersion →
        Config.load files' dataDir = .error (.formatVersionTooNew config.formatVersion 1)) ∧
      (config.formatVersion ≤ 1 → ¬ (∀ rule ∈ config.rules, rule.Holds) →
        ∃ rule, config.Breaks rule ∧ Config.load files' dataDir = .error (.invalidConfig rule.detail))) ∧
    ∀ (around : Surroundings) (args : List String) (dataDir mode username : String) (noKey : Bool)
      (m : Machine),
      Asks around args dataDir (.setUp mode username noKey) → (run around args m).1 = 0 →
      ∃ config, Config.load (run around args m).2.files dataDir = .ok config ∧
        config.connection.username = username ∧ config.connectionMode = ConnectionMode.ofTag mode := by
  refine ⟨fun config files files' dataDir hVersion hSaved => ?_,
    fun around args dataDir mode username noKey m hAsks hCode => ?_⟩
  · have hWord : (config.formatVersion : Int) < Config.wordLimit := by
      rw [Config.wordLimit]
      omega
    have hLoad := Config.load_saved hWord hSaved
    simpa [Config.rules, Config.remoteRule, Config.currentFormat] using hLoad
  · rw [hAsks.run_setUp] at hCode ⊢
    exact ⟨.initial mode username, load_setUp hCode, rfl, Config.connectionMode_initial mode username⟩

/-- A configuration with quotes, a backslash, a line break, a control character and empty texts. -/
def quoted (formatVersion : Nat) (remote : String) : Config where
  formatVersion := formatVersion
  repository := ⟨"", remote, "'''"⟩
  connection := ⟨"", "a\"b\\c\n", "\u0001"⟩
  author := ⟨"\"\"\"", "é", "'"⟩

/-- The configuration is loaded, refused for its version and for its remote, and a vault is set up. -/
theorem load_saved_or_set_up_quoted :
    (∃ files', (quoted 1 "'").save ⟨[], []⟩ "data" = (.ok (), files') ∧
      Config.load files' "data" = .ok (quoted 1 "'")) ∧
    (∃ files', (quoted 2 "'").save ⟨[], []⟩ "data" = (.ok (), files') ∧
      Config.load files' "data" = .error (.formatVersionTooNew 2 1)) ∧
    (∃ files' rule, (quoted 1 "a/b").save ⟨[], []⟩ "data" = (.ok (), files') ∧ (quoted 1 "a/b").Breaks rule ∧
      Config.load files' "data" = .error (.invalidConfig rule.detail)) ∧
    ∃ around m config, (run around ["init", "--mode", " SSH-KEY ", "--username", "", "--no-key"] m).1 = 0 ∧
      Config.load (run around ["init", "--mode", " SSH-KEY ", "--username", "", "--no-key"] m).2.files "/data" =
        .ok config ∧
      config.connection.username = "" ∧ config.connectionMode = ConnectionMode.ofTag " SSH-KEY " := by
  have hSaved (formatVersion : Nat) (remote : String) :
      ∃ files', (quoted formatVersion remote).save ⟨[], []⟩ "data" = (.ok (), files') := ⟨_, rfl⟩
  refine ⟨?_, ?_, ?_, ?_⟩
  · obtain ⟨files', hSaved⟩ := hSaved 1 "'"
    refine ⟨files', hSaved, (load_saved_or_set_up.1 _ _ _ _ (by decide) hSaved).1.2 ?_⟩
    simp only [Config.notBlank_iff]
    decide
  · obtain ⟨files', hSaved⟩ := hSaved 2 "'"
    exact ⟨files', hSaved, (load_saved_or_set_up.1 _ _ _ _ (by decide) hSaved).2.1 (by decide)⟩
  · obtain ⟨files', hSaved⟩ := hSaved 1 "a/b"
    have hPath : ¬ ∀ rule ∈ (quoted 1 "a/b").rules, rule.Holds := fun hHolds =>
      absurd (hHolds (Config.remoteRule (quoted 1 "a/b")) (by simp [Config.rules]))
        (not_not.2 (by decide))
    obtain ⟨rule, hBreaks, hRefused⟩ :=
      (load_saved_or_set_up.1 _ _ _ _ (by decide) hSaved).2.2 (by decide) hPath
    exact ⟨files', rule, hSaved, hBreaks, hRefused⟩
  · have hAsks : Asks ⟨⟨true⟩, Moment.ofSeconds 0, some "/data", none⟩
        ["init", "--mode", " SSH-KEY ", "--username", "", "--no-key"] "/data" (.setUp " SSH-KEY " "" true) :=
      ⟨_, rfl, rfl, rfl⟩
    have hCode : (run ⟨⟨true⟩, Moment.ofSeconds 0, some "/data", none⟩
        ["init", "--mode", " SSH-KEY ", "--username", "", "--no-key"]
        ⟨⟨⟨[], []⟩, []⟩, ⟨.empty, 0⟩, [], .empty, .empty⟩).1 = 0 := rfl
    obtain ⟨config, hLoad, hName, hMode⟩ := load_saved_or_set_up.2 _ _ _ _ _ _ _ hAsks hCode
    exact ⟨_, _, config, hCode, hLoad, hName, hMode⟩

end Cli

end VaultSync
