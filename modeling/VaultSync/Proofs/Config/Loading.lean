import VaultSync.Config
import VaultSync.Proofs.Files.Spares
import VaultSync.Proofs.Text.Ascii

/-! The file of a configuration. What is loaded depends on the text in it alone. -/
namespace VaultSync.Config

open Files

variable {files files' : Files} {loc : Location} {content : ByteArray} {mode : Nat} {text dataDir : String}
  {config : Config}

/-- A configuration is what its text gives. -/
theorem load_of_file (hPath : files.resolve (pathIn dataDir) = .ok loc)
    (hFile : files.lookup loc = some (.file content mode)) (hText : String.fromUTF8? content = some text) :
    load files dataDir = ofText text := by
  have hStat : files.stat (pathIn dataDir) = .ok (.file content mode) := by
    rw [stat_of_resolve hPath, hFile]
    rfl
  simp [load, has, Files.read, hStat, hText, bind, Except.bind, Except.isOk, Except.toBool]

/-- The configuration of a data directory is a file with a text. -/
def Stores (files : Files) (dataDir text : String) : Prop :=
  ∃ loc content mode, files.resolve (pathIn dataDir) = .ok loc ∧
    files.lookup loc = some (.file content mode) ∧ String.fromUTF8? content = some text

/-- Where a text is stored, it is what is loaded. -/
theorem Stores.load_eq (h : Stores files dataDir text) : load files dataDir = ofText text := by
  obtain ⟨loc, content, mode, hPath, hFile, hText⟩ := h
  exact load_of_file hPath hFile hText

/-- A data directory in which there is only a configuration, with a text. -/
def filesWith (text : String) : Files :=
  ⟨[], [(["data"], .directory), (["data", fileName], .file text.toUTF8 defaultMode)]⟩

theorem stores_filesWith (text : String) : Stores (filesWith text) "data" text :=
  ⟨["data", fileName], text.toUTF8, defaultMode, rfl, rfl, fromUTF8?_toUTF8 text⟩

/-- What is loaded is loaded from a file that holds text. -/
theorem exists_file_of_load (h : load files dataDir = .ok config) :
    ∃ loc content mode text, files.resolve (pathIn dataDir) = .ok loc ∧
      files.lookup loc = some (.file content mode) ∧ String.fromUTF8? content = some text := by
  rw [load] at h
  split at h
  · rename_i hHas
    obtain ⟨loc, node, hPath, hNode⟩ := has_eq_true_iff.1 hHas
    have hStat : files.stat (pathIn dataDir) = .ok node := by
      rw [stat_of_resolve hPath, hNode]
      rfl
    cases node with
    | directory => simp [Files.read, hStat, bind, Except.bind] at h
    | file content mode =>
        cases hText : String.fromUTF8? content with
        | none => simp [Files.read, hStat, hText, bind, Except.bind] at h
        | some text => exact ⟨loc, content, mode, text, hPath, hNode, hText⟩
  · cases h

/-- The path of a configuration ends in the name of its file. -/
theorem splitOnChar_pathIn (dataDir : String) :
    ∃ front, Text.splitOnChar '/' (pathIn dataDir) = front ++ [fileName] := by
  have hName : Text.splitOnChar '/' fileName = [fileName] := Text.splitOnChar_of_notMem (by decide)
  exact hName ▸ Path.splitOnChar_join dataDir fileName

theorem isName_fileName : IsName fileName := by
  unfold IsName
  decide

/-- What is loaded stays the same as long as directories stay and no file of this name is touched. -/
theorem load_of_spares {area : Location → Prop} (hSpares : Spares area files files')
    (hDirs : ∀ loc, files.lookup loc = some .directory → files'.lookup loc = some .directory)
    (hOther : ∀ dir, ¬ area (dir ++ [fileName])) (h : load files dataDir = .ok config) :
    load files' dataDir = .ok config := by
  obtain ⟨loc, content, mode, text, hPath, hFile, hText⟩ := exists_file_of_load h
  obtain ⟨front, hParts⟩ := splitOnChar_pathIn dataDir
  obtain ⟨dir, -, -, rfl⟩ := resolve_name isName_fileName hParts hPath
  rw [load_of_file (resolve_of_directories hSpares.workDir hDirs hPath)
    (hSpares.lookup _ _ (hOther dir) hFile) hText, ← load_of_file hPath hFile hText, h]

end VaultSync.Config
