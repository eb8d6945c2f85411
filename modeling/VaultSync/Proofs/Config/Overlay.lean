import VaultSync.Proofs.Config.Saving

/-! Configurations that are written in part. A document may leave out any keys of a configuration, and whole sections
with them, and may have keys and sections besides that this build does not know. What it is read as has the
configuration's values at the keys that are written and the defaults at all others, so it is valid if the
configuration is. -/
namespace VaultSync.Config

open Toml (Member)

variable {config : Config} {chosen : String → String → Bool} {table : Toml.Table} {text dataDir : String}
  {files : Files} {document : List (String × List Member)}

/-! ### Overlays -/

/-- A configuration's own value at a key that is chosen, and the default at any other key. -/
def pick {α : Type} (config : Config) (chosen : String → String → Bool) (name key : String) (value : Config → α) : α :=
  if chosen name key then value config else value Config.default

/-- A configuration at the keys that are chosen, by section and key, over the defaults. -/
def overlay (config : Config) (chosen : String → String → Bool) : Config where
  formatVersion := config.pick chosen "passync" "format_version" (·.formatVersion)
  repository :=
    { path := config.pick chosen "repository" "path" (·.repository.path)
      remote := config.pick chosen "repository" "remote" (·.repository.remote)
      branch := config.pick chosen "repository" "branch" (·.repository.branch) }
  connection :=
    { mode := config.pick chosen "connection" "mode" (·.connection.mode)
      username := config.pick chosen "connection" "username" (·.connection.username)
      sshKey := config.pick chosen "connection" "ssh_key" (·.connection.sshKey) }
  author :=
    { name := config.pick chosen "git" "author_name" (·.author.name)
      email := config.pick chosen "git" "author_email" (·.author.email)
      commitMessage := config.pick chosen "git" "commit_message" (·.author.commitMessage) }

/-- What holds of a value of the configuration and of the default holds of the picked value. -/
theorem pick_induction {α : Type} {P : α → Prop} {value : Config → α} {name key : String}
    (hOwn : P (value config)) (hDefault : P (value Config.default)) : P (config.pick chosen name key value) := by
  rw [pick]
  split
  · exact hOwn
  · exact hDefault

/-- Every rule is about a single key, so an overlay of a valid configuration is valid. -/
theorem overlay_rules (h : ∀ rule ∈ config.rules, rule.Holds) :
    ∀ rule ∈ (config.overlay chosen).rules, rule.Holds := by
  have hDefault := default_rules
  simp only [rules, remoteRule, overlay, List.forall_mem_cons, List.not_mem_nil, false_implies, implies_true,
    and_true] at h hDefault ⊢
  obtain ⟨hRemote, hBranch, hName, hEmail, hPath⟩ := h
  obtain ⟨hRemote', hBranch', hName', hEmail', hPath'⟩ := hDefault
  exact ⟨pick_induction hRemote hRemote', pick_induction hBranch hBranch', pick_induction hName hName',
    pick_induction hEmail hEmail',
    pick_induction (P := fun remote : String => '/' ∉ remote.toList) hPath hPath'⟩

/-! ### Documents in part -/

/-- A section gives the values of the chosen keys, and none for the other keys of a configuration. It may be missing
if none of its keys is chosen. Keys of other names are free. -/
inductive GivesSection (chosen : String → String → Bool) (s : String × List Member) : Option Toml.Value → Prop
  | missing (hNone : ∀ m ∈ s.2, chosen s.1 m.key = false) : GivesSection chosen s none
  | table (origin : Toml.Origin) (members : Toml.Table)
      (hMembers : ∀ m ∈ s.2, members.lookup m.key = if chosen s.1 m.key then some m.value else none) :
      GivesSection chosen s (some (.table origin members))

/-- A document has a configuration's values at the chosen keys and none at its other keys. Sections of other names
are free. -/
def Gives (config : Config) (chosen : String → String → Bool) (table : Toml.Table) : Prop :=
  ∀ s ∈ config.sections, GivesSection chosen s (table.lookup s.1)

/-- A section gives the members that were chosen and leaves the others open. -/
theorem GivesSection.sectionValues?_eq {s : String × List Member} {found : Option Toml.Value}
    (h : GivesSection chosen s found) : sectionValues? (s.2.map (·.key)) found =
      some (s.2.map fun m => if chosen s.1 m.key then some m.value else none) := by
  cases h with
  | missing hNone =>
      rw [sectionValues?, List.map_map, Option.some.injEq]
      exact List.map_congr_left fun m hm => by simp [hNone m hm]
  | table origin members hMembers =>
      rw [sectionValues?, List.map_map, Option.some.injEq]
      exact List.map_congr_left hMembers

/-- A text that is chosen is taken, else the default. -/
theorem textOr?_pick (default own : String) (c : Bool) :
    textOr? default (if c then some (.string own) else none) = some (if c then own else default) := by
  cases c <;> rfl

/-- Three texts of a section, each its own or the default. -/
theorem GivesSection.texts?_eq {name a b c x y z : String} {found : Option Toml.Value}
    {defaults : String × String × String}
    (h : GivesSection chosen (name, [textMember a x, textMember b y, textMember c z]) found) :
    texts? [a, b, c] defaults found =
      some (if chosen name a then x else defaults.1, if chosen name b then y else defaults.2.1,
        if chosen name c then z else defaults.2.2) := by
  have hValues := h.sectionValues?_eq
  simp only [textMember, List.map_cons, List.map_nil] at hValues
  simp [texts?, hValues, textOr?_pick]

/-- Such a document is read as the overlay. -/
theorem Gives.ofTable?_eq (h : config.Gives chosen table) (hWord : config.formatVersion < wordLimit) :
    ofTable? table = some (config.overlay chosen) := by
  simp only [Gives, sections, List.forall_mem_cons, List.not_mem_nil, false_implies, implies_true, and_true] at h
  obtain ⟨hFormat, hRepository, hConnection, hAuthor⟩ := h
  refine ofTable?_eq_some hFormat.sectionValues?_eq ?_ hRepository.texts?_eq hConnection.texts?_eq hAuthor.texts?_eq
  change wordOr? _ (if chosen "passync" "format_version" then _ else none) =
    some (if chosen "passync" "format_version" then _ else _)
  split
  · exact wordOr?_of_lt hWord _
  · rfl

/-- A document that gives a configuration in part, line by line. -/
structure Writes (config : Config) (chosen : String → String → Bool) (document : List (String × List Member)) :
    Prop where
  distinct : (document.map (·.1)).Nodup
  readable : ∀ s ∈ document, Toml.IsBare s.1 ∧ Toml.Readable s.2
  /-- A section is left out, or its chosen keys and no others of the configuration are written in it. -/
  own : ∀ s ∈ config.sections,
    (s.1 ∉ document.map (·.1) ∧ ∀ m ∈ s.2, chosen s.1 m.key = false) ∨
    ∃ members, (s.1, members) ∈ document ∧ ∀ m ∈ s.2,
      if chosen s.1 m.key then (m.key, m.value) ∈ members.map Member.entry else m.key ∉ members.map (·.key)

/-- The text of a document. -/
def documentText (document : List (String × List Member)) : String :=
  Toml.writeSections (document.map fun s => (s.1, s.2.map fun m => (m.key, m.written)))

/-- What is written in part is read back as such a document. -/
theorem Writes.gives (h : config.Writes chosen document) :
    Toml.parse? (documentText document) = some (document.map Toml.sectionEntry) ∧
      config.Gives chosen (document.map Toml.sectionEntry) := by
  refine ⟨Toml.parse?_writeSections h.distinct h.readable, fun s hs => ?_⟩
  have hNames : (document.map Toml.sectionEntry).map (·.1) = document.map (·.1) := by
    rw [List.map_map]
    rfl
  -- a section of the configuration is left out of the document, or written with its chosen members
  rcases h.own s hs with ⟨hOut, hNone⟩ | ⟨members, hSection, hMembers⟩
  · rw [Toml.Table.lookup_of_notMem (hNames ▸ hOut)]
    exact .missing hNone
  · have hKeys : (members.map Member.entry).map (·.1) = members.map (·.key) := by
      rw [List.map_map]
      rfl
    have hFound : (document.map Toml.sectionEntry).lookup s.1 = some (.table .header (members.map Member.entry)) :=
      Files.lookup_of_mem (hNames ▸ h.distinct) (List.mem_map_of_mem hSection)
    rw [hFound]
    refine .table _ _ fun m hm => ?_
    have hMember := hMembers m hm
    split
    · rename_i hChosen
      rw [if_pos hChosen] at hMember
      exact Files.lookup_of_mem (hKeys ▸ (h.readable _ hSection).2.distinct) hMember
    · rename_i hLeft
      rw [if_neg hLeft] at hMember
      exact Toml.Table.lookup_of_notMem (hKeys ▸ hMember)

/-! ### What is loaded -/

theorem overlay_version (hVersion : config.formatVersion ≤ currentFormat) :
    (config.overlay chosen).formatVersion ≤ currentFormat :=
  pick_induction (P := (· ≤ currentFormat)) hVersion le_rfl

/-- From a document that gives a configuration in part, whatever else is in it, its overlay on the defaults is loaded
if that passes the checks, and otherwise the error is the one of the overlay. If the configuration itself can be
loaded the overlay passes, whichever keys are left out. What is written line by line with these keys, and with others
of other names, is such a document. -/
theorem load_overlay :
    (∀ (config : Config) (chosen : String → String → Bool) (files : Files) (dataDir text : String)
      (table : Toml.Table), config.formatVersion < 2 ^ 32 → Stores files dataDir text →
      Toml.parse? text = some table → config.Gives chosen table →
      let overlay := config.overlay chosen
      (load files dataDir = .ok overlay ↔ overlay.formatVersion ≤ 1 ∧ ∀ rule ∈ overlay.rules, rule.Holds) ∧
      (1 < overlay.formatVersion →
        load files dataDir = .error (.formatVersionTooNew overlay.formatVersion 1)) ∧
      (overlay.formatVersion ≤ 1 → ¬ (∀ rule ∈ overlay.rules, rule.Holds) →
        ∃ rule, overlay.Breaks rule ∧ load files dataDir = .error (.invalidConfig rule.detail)) ∧
      ∀ files' dataDir', load files' dataDir' = .ok config → load files dataDir = .ok overlay) ∧
    ∀ (config : Config) (chosen : String → String → Bool) (document : List (String × List Member)),
      config.Writes chosen document →
      ∃ table, Toml.parse? (documentText document) = some table ∧ config.Gives chosen table := by
  refine ⟨fun config chosen files dataDir text table hWord hStores hParse hGives => ?_,
    fun config chosen document hWrites => ⟨_, hWrites.gives⟩⟩
  have hRead : (Toml.parse? text).bind ofTable? = some (config.overlay chosen) := by
    rw [hParse, Option.bind_some, hGives.ofTable?_eq (lt_wordLimit hWord)]
  obtain ⟨hAccepted, hNewer, hBroken⟩ := ofText_cases hRead
  rw [hStores.load_eq]
  refine ⟨hAccepted, hNewer, hBroken, fun files' dataDir' hLoaded => ?_⟩
  obtain ⟨hVersion, hRules⟩ := valid_of_load hLoaded
  exact hAccepted.2 ⟨overlay_version hVersion, overlay_rules hRules⟩

/-- A configuration with a user of its own and a mode of its own. -/
def alice : Config :=
  { Config.default with connection := ⟨ConnectionMode.password.tag, "alice", ".ssh_key"⟩ }

/-- Only the user is written, beside a key and a section of other names. -/
def aliceDocument : List (String × List Member) :=
  [("history", [⟨"depth", toString 3, .integer 3⟩]),
    ("connection", [⟨"retries", toString 5, .integer 5⟩, textMember "username" "alice"])]

/-- The user is loaded, and the mode is the default. -/
theorem load_overlay_alice :
    load (filesWith alice.toText) "data" = .ok alice ∧
    load (filesWith (documentText aliceDocument)) "data" =
      .ok { Config.default with connection := ⟨ConnectionMode.sshKey.tag, "alice", ".ssh_key"⟩ } := by
  have hRules : alice.rules = Config.default.rules := by simp only [rules, remoteRule, alice]
  have hRead : (Toml.parse? alice.toText).bind ofTable? = some alice := by
    rw [parse?_toText (by decide), Option.bind_some, ofTable?_sections (by decide)]
  have hAlice : load (filesWith alice.toText) "data" = .ok alice := by
    rw [(stores_filesWith _).load_eq]
    refine (ofText_cases hRead).1.2 ⟨le_rfl, ?_⟩
    rw [hRules]
    exact default_rules
  have hNumber (n : Nat) (h : n ≤ 9) : Toml.Reads (toString n) (.integer n) := Toml.reads_toString (by omega)
  have hWrites : alice.Writes (fun name key => name = "connection" && key = "username") aliceDocument :=
    { distinct := by decide
      readable := by
        simp only [aliceDocument, List.forall_mem_cons, List.not_mem_nil, false_implies, implies_true, and_true]
        refine ⟨⟨by decide, by decide, by decide, ?_⟩, by decide, by decide, by decide, ?_⟩
        · simpa using hNumber 3 (by decide)
        · simpa using ⟨hNumber 5 (by decide), Toml.reads_writeString "alice"⟩
      own := by
        simp [sections, aliceDocument, textMember, Member.entry, alice] }
  obtain ⟨table, hParse, hGives⟩ := load_overlay.2 _ _ _ hWrites
  refine ⟨hAlice, ?_⟩
  exact (load_overlay.1 alice _ _ _ _ table (by decide) (stores_filesWith _) hParse hGives).2.2.2 _ _ hAlice

end VaultSync.Config
