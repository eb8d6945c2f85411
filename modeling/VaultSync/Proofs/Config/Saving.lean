import Mathlib.Algebra.Group.Nat.Defs
import VaultSync.Proofs.Config.Loading
import VaultSync.Proofs.Config.Rules
import VaultSync.Proofs.Text.Ascii
import VaultSync.Proofs.Toml.Documents

/-! Configurations that are saved and loaded. Whatever texts are in a configuration, its file is read as that
configuration; whether it is loaded is decided by the version of its format and by rules for its names. -/
namespace VaultSync.Config

open Toml (Member Reads)

variable {config : Config} {files files' : Files} {dataDir text : String}

/-! ### The file -/

/-- A key with a text. -/
def textMember (key text : String) : Member :=
  ⟨key, Toml.writeString text, .string text⟩

/-- The sections of the file of a configuration. -/
def sections (config : Config) : List (String × List Member) :=
  [("passync", [⟨"format_version", toString config.formatVersion, .integer config.formatVersion⟩]),
    ("repository", [textMember "path" config.repository.path, textMember "remote" config.repository.remote,
      textMember "branch" config.repository.branch]),
    ("connection", [textMember "mode" config.connection.mode, textMember "username" config.connection.username,
      textMember "ssh_key" config.connection.sshKey]),
    ("git", [textMember "author_name" config.author.name, textMember "author_email" config.author.email,
      textMember "commit_message" config.author.commitMessage])]

theorem toText_eq (config : Config) : config.toText =
    Toml.writeSections (config.sections.map fun s => (s.1, s.2.map fun m => (m.key, m.written))) := rfl

/-- The names of the sections, and of the keys in them. -/
def names : List (String × List String) :=
  [("passync", ["format_version"]), ("repository", ["path", "remote", "branch"]),
    ("connection", ["mode", "username", "ssh_key"]), ("git", ["author_name", "author_email", "commit_message"])]

theorem map_sections (config : Config) : config.sections.map (fun s => (s.1, s.2.map (·.key))) = names := rfl

/-- Sections and keys are written bare, no key twice. -/
theorem names_bare : ∀ s ∈ names, Toml.IsBare s.1 ∧ s.2.Nodup ∧ ∀ key ∈ s.2, Toml.IsBare key := by
  decide

/-- Each written member is read back. -/
theorem reads_of_mem_sections (h : config.formatVersion < wordLimit) {s : String × List Member}
    (hs : s ∈ config.sections) {m : Member} (hm : m ∈ s.2) : Reads m.written m.value := by
  have hNumber : Reads (toString config.formatVersion) (.integer config.formatVersion) :=
    Toml.reads_toString (by rw [wordLimit] at h; omega)
  have hText (key text : String) : Reads (textMember key text).written (textMember key text).value :=
    Toml.reads_writeString text
  simp only [sections, List.mem_cons, List.not_mem_nil, or_false] at hs
  rcases hs with rfl | rfl | rfl | rfl
  · rw [List.mem_singleton.1 hm]
    exact hNumber
  all_goals
    simp only [List.mem_cons, List.not_mem_nil, or_false] at hm
    rcases hm with rfl | rfl | rfl <;> exact hText _ _

/-- The text of a configuration parses to its sections. -/
theorem parse?_toText (h : config.formatVersion < wordLimit) :
    Toml.parse? config.toText = some (config.sections.map Toml.sectionEntry) := by
  rw [toText_eq]
  refine Toml.parse?_writeSections (show (names.map (·.1)).Nodup by decide) fun s hs => ?_
  have hNames : (s.1, s.2.map (·.key)) ∈ names := by
    rw [← map_sections config]
    exact List.mem_map_of_mem hs
  obtain ⟨hBare, hDistinct, hKeys⟩ := names_bare _ hNames
  exact ⟨hBare, hDistinct, fun m hm => hKeys m.key (List.mem_map_of_mem hm),
    fun m hm => reads_of_mem_sections h hs hm⟩

theorem lt_wordLimit {n : Nat} (h : n < 2 ^ 32) : (n : Int) < wordLimit := by
  rw [wordLimit]
  omega

/-- A version that fits in a word is taken. -/
theorem wordOr?_of_lt {n : Nat} (h : n < wordLimit) (default : Nat) :
    wordOr? default (some (.integer n)) = some n := by
  rw [wordOr?, if_pos ⟨Int.natCast_nonneg n, h⟩, Int.toNat_natCast]

/-- Three texts under their keys are read in the order of the keys. -/
theorem texts?_header {a b c : String} (hab : b ≠ a) (hac : c ≠ a) (hbc : c ≠ b)
    (x y z : String) (defaults : String × String × String) :
    texts? [a, b, c] defaults (some (.table .header [(a, .string x), (b, .string y), (c, .string z)])) =
      some (x, y, z) := by
  simp [texts?, sectionValues?, List.lookup_cons, beq_false_of_ne hab, beq_false_of_ne hac,
    beq_false_of_ne hbc, textOr?]

/-- A table whose sections give the values of a configuration gives the configuration. -/
theorem ofTable?_eq_some {table : Toml.Table} {version : Option Toml.Value}
    (hSection : sectionValues? ["format_version"] (table.lookup "passync") = some [version])
    (hVersion : wordOr? Config.default.formatVersion version = some config.formatVersion)
    (hRepository : texts? ["path", "remote", "branch"] (Config.default.repository.path,
      Config.default.repository.remote, Config.default.repository.branch) (table.lookup "repository") =
      some (config.repository.path, config.repository.remote, config.repository.branch))
    (hConnection : texts? ["mode", "username", "ssh_key"] (Config.default.connection.mode,
      Config.default.connection.username, Config.default.connection.sshKey) (table.lookup "connection") =
      some (config.connection.mode, config.connection.username, config.connection.sshKey))
    (hAuthor : texts? ["author_name", "author_email", "commit_message"] (Config.default.author.name,
      Config.default.author.email, Config.default.author.commitMessage) (table.lookup "git") =
      some (config.author.name, config.author.email, config.author.commitMessage)) :
    ofTable? table = some config := by
  simp [ofTable?, hSection, hVersion, hRepository, hConnection, hAuthor]

/-- The file of a configuration is read as that configuration. -/
theorem ofTable?_sections (h : config.formatVersion < wordLimit) :
    ofTable? (config.sections.map Toml.sectionEntry) = some config := by
  refine ofTable?_eq_some rfl (wordOr?_of_lt h _) ?_ ?_ ?_
  all_goals exact texts?_header (by decide) (by decide) (by decide) _ _ _ _

/-- A text that is read as a configuration is accepted as that configuration if its format is known and every rule
holds, and otherwise refused for what is checked first. -/
theorem ofText_cases (hRead : (Toml.parse? text).bind ofTable? = some config) :
    (ofText text = .ok config ↔ config.formatVersion ≤ currentFormat ∧ ∀ rule ∈ config.rules, rule.Holds) ∧
    (currentFormat < config.formatVersion →
      ofText text = .error (.formatVersionTooNew config.formatVersion currentFormat)) ∧
    (config.formatVersion ≤ currentFormat → ¬ (∀ rule ∈ config.rules, rule.Holds) →
      ∃ rule, config.Breaks rule ∧ ofText text = .error (.invalidConfig rule.detail)) := by
  rw [ofText, hRead]
  dsimp only
  split
  · rename_i hNew
    simp [hNew, Nat.not_le.2 hNew]
  · rename_i hKnown
    have hKnown := Nat.not_lt.1 hKnown
    rcases validate_cases config with ⟨hHolds, hValid⟩ | ⟨rule, hBreaks, hInvalid⟩
    · rw [hValid]
      exact ⟨⟨fun _ => ⟨hKnown, hHolds⟩, fun _ => rfl⟩, fun hNew => absurd hNew (Nat.not_lt.2 hKnown),
        fun _ hNot => absurd hHolds hNot⟩
    · rw [hInvalid]
      refine ⟨iff_of_false (by simp [bind, Except.bind]) fun h => not_breaks_of_holds h.2 hBreaks,
        fun hNew => absurd hNew (Nat.not_lt.2 hKnown), fun _ _ => ⟨rule, hBreaks, rfl⟩⟩

/-- What is accepted was read as it is. -/
theorem read_of_ofText (h : ofText text = .ok config) : (Toml.parse? text).bind ofTable? = some config := by
  rw [ofText] at h
  split at h
  · cases h
  · rename_i found hFound
    split at h
    · cases h
    · obtain ⟨-, -, hSame⟩ := bind_eq_ok.1 h
      rw [hFound, Except.ok.inj hSame]

/-! ### What is loaded -/

/-- A configuration that is loaded has a known format and breaks no rule. -/
theorem valid_of_load (h : load files dataDir = .ok config) :
    config.formatVersion ≤ currentFormat ∧ ∀ rule ∈ config.rules, rule.Holds := by
  obtain ⟨loc, content, mode, text, hPath, hFile, hText⟩ := exists_file_of_load h
  rw [load_of_file hPath hFile hText] at h
  exact (ofText_cases (read_of_ofText h)).1.1 h

/-- What is loaded after a configuration was saved is what its file says. -/
theorem load_of_save (hSaved : config.save files dataDir = (.ok (), files')) :
    load files' dataDir = ofText config.toText := by
  rw [save] at hSaved
  rcases hMade : files.createDirAll dataDir with ⟨_ | _, made⟩
  · simp [hMade] at hSaved
  · simp only [hMade] at hSaved
    cases hWrite : made.write (pathIn dataDir) config.toText.toUTF8 with
    | error e =>
        rw [hWrite] at hSaved
        cases hSaved
    | ok written =>
        obtain ⟨loc, mode, hPath, hNode, rfl⟩ := Files.write_eq_ok hWrite
        have hRoot := Files.ne_root_of_lookup hNode
        have hFile : (made.insert loc (.file config.toText.toUTF8 mode)).lookup loc =
            some (.file config.toText.toUTF8 mode) := by
          rw [Files.lookup_insert _ _ hRoot, if_pos rfl]
        rw [hWrite] at hSaved
        obtain rfl : made.insert loc _ = files' := (Prod.ext_iff.1 hSaved).2
        exact load_of_file (Files.resolve_insert hNode hPath) hFile (fromUTF8?_toUTF8 _)

/-- What was saved is loaded if its format is known and every rule holds. -/
theorem load_saved (hVersion : config.formatVersion < wordLimit)
    (hSaved : config.save files dataDir = (.ok (), files')) :
    (load files' dataDir = .ok config ↔
      config.formatVersion ≤ currentFormat ∧ ∀ rule ∈ config.rules, rule.Holds) ∧
    (currentFormat < config.formatVersion →
      load files' dataDir = .error (.formatVersionTooNew config.formatVersion currentFormat)) ∧
    (config.formatVersion ≤ currentFormat → ¬ (∀ rule ∈ config.rules, rule.Holds) →
      ∃ rule, config.Breaks rule ∧ load files' dataDir = .error (.invalidConfig rule.detail)) := by
  have hRead : (Toml.parse? config.toText).bind ofTable? = some config := by
    rw [parse?_toText hVersion, Option.bind_some, ofTable?_sections hVersion]
  rw [load_of_save hSaved]
  exact ofText_cases hRead

end VaultSync.Config
