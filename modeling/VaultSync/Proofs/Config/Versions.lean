import VaultSync.Proofs.Config.Saving

/-! Formats that are newer than this build. The version of a format is looked at only once the whole document was
read as a configuration of this build, so a newer format is refused for its version exactly when the sections that
this build knows have the shape that it expects. Otherwise the document is refused as one that cannot be read. -/
namespace VaultSync.Config

variable {table : Toml.Table} {config : Config} {keys : List String} {section? value x y z : Option Toml.Value}
  {a b c text dataDir : String} {defaults : String × String × String} {files : Files} {n : Nat}

/-! ### Shapes -/

/-- A value that can stand for a text: a text, or none. -/
def Textual (value : Option Toml.Value) : Prop :=
  ∀ v ∈ value, ∃ s, v = .string s

/-- A section has the shape that this build expects: it is missing, or a table in which the keys that this build
knows have texts or are missing, or an array with texts in the places of these keys. What else is in it is free. -/
def Fits (keys : List String) : Option Toml.Value → Prop
  | none => True
  | some (.table _ members) => ∀ key ∈ keys, Textual (members.lookup key)
  | some (.array items) => ∀ item ∈ items.take keys.length, Textual (some item)
  | some (.tables elements) => elements.take keys.length = []
  | some _ => False

/-- The sections with texts have the shapes that this build expects. -/
structure Understood (table : Toml.Table) : Prop where
  repository : Fits ["path", "remote", "branch"] (table.lookup "repository")
  connection : Fits ["mode", "username", "ssh_key"] (table.lookup "connection")
  author : Fits ["author_name", "author_email", "commit_message"] (table.lookup "git")

/-- A document gives the version of its format. -/
def HasVersion (table : Toml.Table) (n : Nat) : Prop :=
  ∃ origin members, table.lookup "passync" = some (.table origin members) ∧
    members.lookup "format_version" = some (.integer n)

/-! ### Reading -/

/-- A value is taken as text exactly when it is one or missing. -/
theorem exists_textOr?_iff (default : String) : (∃ s, textOr? default value = some s) ↔ Textual value := by
  cases value with
  | none => simp [textOr?, Textual]
  | some v => cases v <;> simp [textOr?, Textual]

/-- Three texts are read from a section when each of its three values can stand for a text. -/
theorem exists_texts?_of_values (h : sectionValues? keys section? = some [x, y, z]) :
    (∃ texts, texts? keys defaults section? = some texts) ↔ Textual x ∧ Textual y ∧ Textual z := by
  rw [← exists_textOr?_iff defaults.1, ← exists_textOr?_iff defaults.2.1, ← exists_textOr?_iff defaults.2.2]
  cases hx : textOr? defaults.1 x <;> cases hy : textOr? defaults.2.1 y <;> cases hz : textOr? defaults.2.2 z <;>
    simp [texts?, h, hx, hy, hz]

/-- A value that is no section gives no texts, not even the defaults. -/
theorem not_exists_texts? (h : sectionValues? keys section? = none) :
    ¬ ∃ texts, texts? keys defaults section? = some texts := by
  simp [texts?, h]

/-- A section of texts is read exactly when it has the expected shape. -/
theorem exists_texts?_iff :
    (∃ texts, texts? [a, b, c] defaults section? = some texts) ↔ Fits [a, b, c] section? := by
  cases section? with
  | none => rw [exists_texts?_of_values rfl]; simp [Fits, Textual]
  | some v =>
      cases v with
      | table origin members => rw [exists_texts?_of_values rfl]; simp [Fits]
      | array items =>
          rw [exists_texts?_of_values rfl]
          match items with
          | [] => simp [Fits, Textual]
          | [_] => simp [Fits, Textual]
          | [_, _] => simp [Fits, Textual]
          | _ :: _ :: _ :: _ => simp [Fits, Textual]
      | tables elements =>
          rw [exists_texts?_of_values rfl]
          match elements with
          | [] => simp [Fits, Textual]
          | _ :: _ => simp [Fits, Textual]
      | string | integer | boolean | float | dateTime => exact iff_of_false (not_exists_texts? rfl) not_false

/-- What is read as a configuration has texts in its three sections of texts. -/
theorem texts?_of_ofTable? (h : ofTable? table = some config) :
    (∃ texts, texts? ["path", "remote", "branch"] (Config.default.repository.path,
      Config.default.repository.remote, Config.default.repository.branch) (table.lookup "repository") = some texts) ∧
    (∃ texts, texts? ["mode", "username", "ssh_key"] (Config.default.connection.mode,
      Config.default.connection.username, Config.default.connection.sshKey) (table.lookup "connection") =
        some texts) ∧
    ∃ texts, texts? ["author_name", "author_email", "commit_message"] (Config.default.author.name,
      Config.default.author.email, Config.default.author.commitMessage) (table.lookup "git") = some texts := by
  simp only [ofTable?, bind, Option.bind_eq_some_iff] at h
  obtain ⟨values, -, h⟩ := h
  split at h
  · simp only [Option.bind_eq_some_iff] at h
    obtain ⟨_, -, _, hRepository, _, hConnection, _, hAuthor, -⟩ := h
    exact ⟨⟨_, hRepository⟩, ⟨_, hConnection⟩, ⟨_, hAuthor⟩⟩
  · cases h

/-- The version of a document's format is read as it stands. -/
theorem HasVersion.read (h : HasVersion table n) (hWord : n < wordLimit) :
    ∃ value, sectionValues? ["format_version"] (table.lookup "passync") = some [value] ∧
      wordOr? Config.default.formatVersion value = some n := by
  obtain ⟨origin, members, hSection, hValue⟩ := h
  refine ⟨members.lookup "format_version", by rw [hSection]; rfl, ?_⟩
  rw [hValue, wordOr?_of_lt hWord]

/-- A document with a version is read as a configuration of that version if its sections are understood, and as
none otherwise. -/
theorem HasVersion.ofTable?_cases (h : HasVersion table n) (hWord : n < wordLimit) :
    (Understood table ∧ ∃ config, ofTable? table = some config ∧ config.formatVersion = n) ∨
      (¬ Understood table ∧ ofTable? table = none) := by
  obtain ⟨version, hSection, hVersion⟩ := h.read hWord
  by_cases hUnderstood : Understood table
  · left
    obtain ⟨⟨path, remote, branch⟩, hRepository⟩ := exists_texts?_iff.2 hUnderstood.repository
    obtain ⟨⟨mode, username, sshKey⟩, hConnection⟩ := exists_texts?_iff.2 hUnderstood.connection
    obtain ⟨⟨name, email, message⟩, hAuthor⟩ := exists_texts?_iff.2 hUnderstood.author
    let config : Config := ⟨n, ⟨path, remote, branch⟩, ⟨mode, username, sshKey⟩, ⟨name, email, message⟩⟩
    exact ⟨hUnderstood, config, ofTable?_eq_some hSection hVersion hRepository hConnection hAuthor, rfl⟩
  · right
    refine ⟨hUnderstood, Option.eq_none_iff_forall_ne_some.2 fun config hConfig => hUnderstood ?_⟩
    obtain ⟨hRepository, hConnection, hAuthor⟩ := texts?_of_ofTable? hConfig
    exact ⟨exists_texts?_iff.1 hRepository, exists_texts?_iff.1 hConnection, exists_texts?_iff.1 hAuthor⟩

/-! ### Newer formats -/

/-- A document of a newer format, whatever else is in it, is refused for the version of its format exactly when its
sections are understood. Blank names and other broken rules do not come before the version. Otherwise the document
is refused as one that cannot be read. -/
theorem load_newer (hStores : Stores files dataDir text) (hParse : Toml.parse? text = some table)
    (hVersion : HasVersion table n) (hNewer : 1 < n) (hWord : n < 2 ^ 32) :
    (Understood table → load files dataDir = .error (.formatVersionTooNew n 1)) ∧
    (¬ Understood table →
      load files dataDir = .error (.invalidConfig "Failed to parse config.toml")) := by
  rw [hStores.load_eq, ofText, hParse, Option.bind_some]
  rcases hVersion.ofTable?_cases (lt_wordLimit hWord) with ⟨hKnown, config, hRead, rfl⟩ | ⟨hUnknown, hRead⟩
  · rw [hRead]
    exact ⟨fun _ => if_pos hNewer, fun hUnknown => absurd hKnown hUnknown⟩
  · rw [hRead]
    exact ⟨fun hKnown => absurd hKnown hUnknown, fun _ => rfl⟩

/-- A document of the second format with a blank name and a section that is new. -/
def newerText : String :=
  "[passync]\nformat_version = 2\n\n[repository]\nremote = ''\n\n[history]\ndepth = 3\n"

/-- A document of the second format in which the path of the store is a number. -/
def numberedText : String :=
  "[passync]\nformat_version = 2\n\n[repository]\npath = 5\n"

/-- The sections of the one document are understood, those of the other are not. -/
theorem load_newer_history :
    load (filesWith newerText) "data" = .error (.formatVersionTooNew 2 1) ∧
      load (filesWith numberedText) "data" = .error (.invalidConfig "Failed to parse config.toml") := by
  constructor
  · have hParse : Toml.parse? newerText = some [("passync", .table .header [("format_version", .integer 2)]),
        ("repository", .table .header [("remote", .string "")]),
        ("history", .table .header [("depth", .integer 3)])] := rfl
    refine (load_newer (stores_filesWith newerText) hParse ⟨_, _, rfl, rfl⟩ (by decide) (by decide)).1
      ⟨?_, trivial, trivial⟩
    simp [Fits, Textual, List.lookup_cons]
  · have hParse : Toml.parse? numberedText = some [("passync", .table .header [("format_version", .integer 2)]),
        ("repository", .table .header [("path", .integer 5)])] := rfl
    refine (load_newer (stores_filesWith numberedText) hParse ⟨_, _, rfl, rfl⟩ (by decide) (by decide)).2
      fun hKnown => ?_
    obtain ⟨s, hText⟩ := hKnown.repository "path" (by decide) (.integer 5) rfl
    cases hText

/-- A newer format is not always recognized by its version. -/
theorem load_newer_numbered :
    ¬ ∀ (files : Files) (dataDir text : String) (table : Toml.Table) (n : Nat),
      Stores files dataDir text → Toml.parse? text = some table → HasVersion table n → 1 < n → n < 2 ^ 32 →
      load files dataDir = .error (.formatVersionTooNew n 1) := by
  intro hClaim
  have hNewer := hClaim _ _ _ _ 2 (stores_filesWith numberedText) rfl ⟨_, _, rfl, rfl⟩ (by decide) (by decide)
  have hLoad : load (filesWith numberedText) "data" =
      .error (.invalidConfig "Failed to parse config.toml") := (stores_filesWith numberedText).load_eq.trans rfl
  rw [hLoad] at hNewer
  cases hNewer

end VaultSync.Config
