import VaultSync.Proofs.Cli.Setup
import VaultSync.Proofs.Keys.Writing

/-! Vaults that could not be set up, and trying it again. If the configuration could not be written, there is no file
for it and the next attempt starts afresh. If the first key could not be stored, the configuration is there already,
and as long as it is every other attempt is refused. -/
namespace VaultSync

open Files

variable {files files' made saved : Files} {dataDir mode username : String} {config : Config} {e : VaultError}

namespace Config

/-- Where directories are made for a configuration: on the way to the directory of the data. -/
def Place (dataDir : String) (files : Files) : Location → Prop :=
  OnWay (files.start dataDir) (Path.spelled (Text.splitOnChar '/' dataDir))

/-- A directory of the data that cannot be made has no file of a configuration in it. -/
theorem isFile_of_unmade {fault : FileError} (h : files.createDirAll dataDir = (.error fault, made)) :
    made.isFile (pathIn dataDir) = false := by
  have hWork : (files.createDirAll dataDir).2.workDir = files.workDir :=
    (@Spares.createDirAll (fun _ => False) files dataDir).workDir
  rw [h] at hWork
  refine Bool.eq_false_iff.2 fun hFile => ?_
  obtain ⟨loc, content, mode, hPath, -⟩ := isFile_eq_true_iff.1 hFile
  have hSome : dataDir ≠ "" := by
    rintro rfl
    cases h
  obtain ⟨above, hBase, hDir⟩ := exists_base_of_resolve_join (by decide) hSome hPath
  cases createDirAll_of_resolve h hWork hBase hDir

/-- A configuration that cannot be saved has no file. At most directories were made on the way to the directory of
the data, and none if that is there. -/
theorem unsaved (h : config.save files dataDir = (.error e, made)) :
    GrowsAt (Place dataDir files) files made ∧ made.isFile (pathIn dataDir) = false ∧
      (files.isDirectory dataDir = true → made = files) := by
  have hGrows := createDirAll_growsAt files dataDir
  have hThere : files.isDirectory dataDir = true → (files.createDirAll dataDir).2 = files := by
    intro hDir
    obtain ⟨loc, hPath, hNode⟩ := isDirectory_eq_true_iff.1 hDir
    rw [createDirAll_made hPath hNode]
  rw [save] at h
  -- saving fails at the directory or at the file; in both cases there is no file where the configuration goes
  rcases hMade : files.createDirAll dataDir with ⟨reply, files'⟩
  rw [hMade] at h hGrows hThere
  cases reply with
  | error fault =>
      obtain rfl : files' = made := (Prod.ext_iff.1 h).2
      exact ⟨hGrows, isFile_of_unmade hMade, hThere⟩
  | ok =>
      dsimp only at h
      cases hWrite : files'.write (pathIn dataDir) config.toText.toUTF8 with
      | ok written =>
          rw [hWrite] at h
          cases h
      | error fault =>
          rw [hWrite] at h
          obtain rfl : files' = made := (Prod.ext_iff.1 h).2
          refine ⟨hGrows, Bool.eq_false_iff.2 fun hFile => ?_, hThere⟩
          obtain ⟨written, hWritten⟩ := exists_write_of_isFile hFile config.toText.toUTF8
          rw [hWritten] at hWrite
          cases hWrite

end Config

/-- A first key that cannot be stored leaves at most directories. -/
theorem KeyStore.growsAt_of_generate {created : String} {entropy : Entropy}
    (h : ((inData dataDir).generate created files entropy).1 = .error e) :
    GrowsAt (Place dataDir files) files ((inData dataDir).generate created files entropy).2.1 := by
  rw [generate] at h ⊢
  generalize KeyPair.generate created entropy = drawn at h ⊢
  obtain ⟨_ | key, entropy'⟩ := drawn
  · exact .refl _ _
  · have hAdded := stays_add dataDir key files
    dsimp only at h ⊢
    generalize (inData dataDir).add key files = added at h hAdded ⊢
    obtain ⟨_ | id, files'⟩ := added
    · exact hAdded
    · cases h

/-- If the directory of the keys cannot be made, the first key cannot be stored. -/
theorem KeyStore.generate_of_unmade {store : KeyStore} {created : String} {entropy : Entropy} {fault : FileError}
    (h : files.createDirAll store.dir = (.error fault, files)) :
    ∃ e entropy', store.generate created files entropy = (.error e, files, entropy') := by
  rw [generate]
  rcases KeyPair.generate created entropy with ⟨e | key, entropy'⟩
  · exact ⟨e, entropy', rfl⟩
  · simp only [add, h]
    cases store.keyFile key.id with
    | error e => exact ⟨e, entropy', rfl⟩
    | ok path => exact ⟨_, entropy', rfl⟩

namespace Cli

variable {around : Surroundings} {args : List String} {m : Machine} {noKey : Bool} {now : Moment}

/-! ### What a failure leaves -/

/-- When the configuration cannot be saved, setting up leaves what the attempt has made. -/
theorem files_setUp_of_unsaved (hFree : m.files.has (Config.pathIn dataDir) = false)
    (hSave : (Config.initial mode username).save m.files dataDir = (.error e, made)) :
    (conclude (setUp now dataDir mode username noKey m)).2.files = made := by
  rw [setUp_of_missing hFree, hSave]
  rfl

/-- If a vault cannot be set up although its configuration was saved, then its first key could not be stored. -/
theorem setUp_failed_of_saved (hFree : m.files.has (Config.pathIn dataDir) = false)
    (hSave : (Config.initial mode username).save m.files dataDir = (.ok (), saved))
    (hCode : (conclude (setUp now dataDir mode username noKey m)).1 ≠ 0) :
    noKey = false ∧
      Config.load (conclude (setUp now dataDir mode username noKey m)).2.files dataDir =
        .ok (.initial mode username) ∧
      GrowsAt (KeyStore.Place dataDir saved) saved (conclude (setUp now dataDir mode username noKey m)).2.files := by
  obtain ⟨hDone, hMade⟩ := conclude_setUp_saved hFree hSave
  have hKey : noKey = false := Bool.eq_false_iff.2 fun hNoKey => hCode (hDone hNoKey)
  obtain ⟨hMade, hFiles⟩ := hMade hKey
  refine ⟨hKey, load_setUp_of_saved hFree hSave, ?_⟩
  rw [hFiles]
  cases hReply : ((KeyStore.inData dataDir).generate now.stamp saved m.entropy).1 with
  | ok key => exact absurd (hMade.2 ⟨key, hReply⟩) hCode
  | error e => exact KeyStore.growsAt_of_generate hReply

/-- Setting a vault up in a directory without a configuration fails in two ways only. If the configuration cannot be
saved, there is no file for it afterwards, and if the directory of the data was there nothing has changed, so that
another attempt is not refused. If the first key cannot be stored, which is never so when none is wanted, the
configuration is there and can be loaded, at most directories were made for the keys, and every later attempt is
refused as long as the configuration is there. -/
theorem setUp_failed (hAsks : Asks around args dataDir (.setUp mode username noKey))
    (hFree : m.files.has (Config.pathIn dataDir) = false) :
    ((run around args m).1 = 0 ↔ ∃ saved, (Config.initial mode username).save m.files dataDir = (.ok (), saved) ∧
      (noKey = true ∨ ∃ key, ((KeyStore.inData dataDir).generate around.now.stamp saved m.entropy).1 = .ok key)) ∧
    (∀ e made, (Config.initial mode username).save m.files dataDir = (.error e, made) →
      (run around args m).2.files = made ∧ GrowsAt (Config.Place dataDir m.files) m.files made ∧
        made.isFile (Config.pathIn dataDir) = false ∧
        (m.files.isDirectory dataDir = true → made = m.files ∧ made.has (Config.pathIn dataDir) = false)) ∧
    (∀ saved, (Config.initial mode username).save m.files dataDir = (.ok (), saved) → (run around args m).1 ≠ 0 →
      noKey = false ∧ Config.load (run around args m).2.files dataDir = .ok (.initial mode username) ∧
        GrowsAt (KeyStore.Place dataDir saved) saved (run around args m).2.files ∧
        ∀ {around' args' mode' username' noKey' m'}, Asks around' args' dataDir (.setUp mode' username' noKey') →
          m'.files.has (Config.pathIn dataDir) = true → run around' args' m' = refused dataDir m') := by
  rw [hAsks.run_setUp]
  refine ⟨code_setUp hFree, fun e made hSave => ?_, fun saved hSave hCode => ?_⟩
  · obtain ⟨hGrows, hNone, hSame⟩ := Config.unsaved hSave
    refine ⟨files_setUp_of_unsaved hFree hSave, hGrows, hNone, fun hDir => ?_⟩
    rw [hSame hDir]
    exact ⟨rfl, hFree⟩
  · obtain ⟨hKey, hLoad, hGrows⟩ := setUp_failed_of_saved hFree hSave hCode
    refine ⟨hKey, hLoad, hGrows, fun hAgain hThere => ?_⟩
    rw [hAgain.run_setUp, setUp_of_has hThere]

/-- A machine with a plain file in the place of the keys. -/
def obstructed : Machine :=
  ⟨⟨⟨[], [(["data"], .directory), (["data", "keys"], .file .empty defaultMode)]⟩, []⟩, ⟨.empty, 0⟩, [], .empty, .empty⟩

/-- The files of that machine, once the configuration is saved. -/
def obstructedSaved : Files :=
  ⟨[], [(["data"], .directory), (["data", "keys"], .file .empty defaultMode),
    (["data", Config.fileName], .file (Config.initial "ssh-key" "git").toText.toUTF8 defaultMode)]⟩

def onData : Surroundings :=
  ⟨⟨true⟩, Moment.ofSeconds 0, some "/data", none⟩

theorem asks_onData : Asks onData ["init"] "/data" (.setUp "ssh-key" "git" false) :=
  ⟨_, rfl, rfl, rfl⟩

/-- A file in place of the key directory does not keep the configuration from being saved. -/
theorem save_obstructed :
    (Config.initial "ssh-key" "git").save obstructed.files "/data" = (.ok (), obstructedSaved) := rfl

/-- The file in the place of the keys keeps the first key from being stored. -/
theorem run_obstructed : (run onData ["init"] obstructed).1 ≠ 0 ∧
    (run onData ["init"] obstructed).2.files = obstructedSaved := by
  have hFree : obstructed.files.has (Config.pathIn "/data") = false := rfl
  have hUnmade : obstructedSaved.createDirAll (KeyStore.inData "/data").dir = (.error .exists, obstructedSaved) := rfl
  obtain ⟨e, entropy, hGenerate⟩ : ∃ e entropy, (KeyStore.inData "/data").generate onData.now.stamp obstructedSaved
      obstructed.entropy = (.error e, obstructedSaved, entropy) := KeyStore.generate_of_unmade hUnmade
  rw [asks_onData.run_setUp, Ne, ((conclude_setUp_saved hFree save_obstructed).2 rfl).1,
    ((conclude_setUp_saved hFree save_obstructed).2 rfl).2, hGenerate]
  refine ⟨fun hKey => ?_, rfl⟩
  obtain ⟨key, hKey⟩ := hKey
  cases hKey

/-- The configuration is there although the first key could not be stored. Once the file in the place of the keys is
taken away, setting the vault up is still refused. In the place of the directory of the data, such a file keeps the
configuration from being saved. -/
theorem setUp_failed_obstructed :
    (run onData ["init"] obstructed).1 ≠ 0 ∧
    Config.load (run onData ["init"] obstructed).2.files "/data" = .ok (.initial "ssh-key" "git") ∧
    (∃ files, (run onData ["init"] obstructed).2.files.removeFile "/data/keys" = .ok files ∧
      run onData ["init"] (obstructed.withFiles files) = refused "/data" (obstructed.withFiles files)) ∧
    ∃ made, (run onData ["init"] (obstructed.withFiles ⟨[], [(["data"], .file .empty defaultMode)]⟩)).2.files = made ∧
      made.isFile (Config.pathIn "/data") = false := by
  obtain ⟨hCode, hFiles⟩ := run_obstructed
  obtain ⟨-, -, hSaved⟩ := setUp_failed asks_onData (m := obstructed) rfl
  obtain ⟨-, hLoad, -, hRefused⟩ := hSaved obstructedSaved save_obstructed hCode
  refine ⟨hCode, hLoad, ?_, ?_⟩
  · rw [hFiles]
    exact ⟨_, rfl, hRefused asks_onData rfl⟩
  · obtain ⟨-, hUnsaved, -⟩ := setUp_failed asks_onData
      (m := obstructed.withFiles ⟨[], [(["data"], .file .empty defaultMode)]⟩) rfl
    obtain ⟨hMade, -, hNone, -⟩ := hUnsaved _ _ rfl
    exact ⟨_, hMade, hNone⟩

/-- A vault that could not be set up can have a configuration all the same. -/
theorem setUp_failed_initialized :
    ¬ ∀ (around : Surroundings) (args : List String) (dataDir mode username : String) (noKey : Bool) (m : Machine),
      Asks around args dataDir (.setUp mode username noKey) → m.files.has (Config.pathIn dataDir) = false →
      (run around args m).1 ≠ 0 → (run around args m).2.files.has (Config.pathIn dataDir) = false := by
  intro hClaim
  obtain ⟨hCode, hFiles⟩ := run_obstructed
  have hNone := hClaim onData ["init"] "/data" _ _ _ obstructed asks_onData rfl hCode
  have hThere : obstructedSaved.has (Config.pathIn "/data") = true := rfl
  rw [hFiles, hThere] at hNone
  cases hNone

end Cli

end VaultSync
