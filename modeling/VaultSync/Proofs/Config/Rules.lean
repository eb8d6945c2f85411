import Mathlib.Data.List.TakeWhile
import VaultSync.Config

/-! Rules for configurations. A configuration is valid if every rule holds for it, and otherwise the first rule
that does not hold is the error. -/
namespace VaultSync

/-- A text is trimmed to nothing exactly when it has only blanks. -/
theorem Text.isEmpty_trim {text : String} :
    (Text.trim text).isEmpty = true ↔ ∀ c ∈ text.toList, Text.isBlank c = true := by
  have hTrimmed : (Text.trim text).isEmpty = true ↔ Text.trimChars text.toList = [] := by
    rw [Text.trim, String.isEmpty_iff, ← String.toList_inj, String.toList_ofList, String.toList_empty]
  rw [hTrimmed, Text.trimChars, Text.dropEndWhile, List.reverse_eq_nil_iff, List.dropWhile_eq_nil_iff]
  constructor
  · intro hBlank
    -- what follows the blanks at the front cannot start with a blank
    have hNil : text.toList.dropWhile Text.isBlank = [] := by
      by_contra hSome
      have hHead := List.head_dropWhile_not Text.isBlank hSome
      rw [hBlank _ (List.mem_reverse.2 (List.head_mem hSome))] at hHead
      cases hHead
    exact List.dropWhile_eq_nil_iff.1 hNil
  · intro hBlank c hc
    exact hBlank c ((List.dropWhile_sublist _).subset (List.mem_reverse.1 hc))

namespace Config

/-- A text in which there is something to see. -/
def NotBlank (text : String) : Prop :=
  ∃ c ∈ text.toList, Text.isBlank c = false

theorem notBlank_iff {text : String} : NotBlank text ↔ (Text.trim text).isEmpty = false := by
  rw [← Bool.not_eq_true, Text.isEmpty_trim, NotBlank]
  simp

/-- What must hold of a configuration, and what is said if it does not. -/
structure Rule where
  Holds : Prop
  detail : String

/-- The rule for the name of the remote, which must not be a path. -/
def remoteRule (config : Config) : Rule :=
  ⟨'/' ∉ config.repository.remote.toList,
    "'repository.remote' must be a remote name, not a URL or path: " ++ config.repository.remote⟩

/-- The rules, in the order in which they are checked. -/
def rules (config : Config) : List Rule :=
  [⟨NotBlank config.repository.remote, "'repository.remote' must not be empty"⟩,
    ⟨NotBlank config.repository.branch, "'repository.branch' must not be empty"⟩,
    ⟨NotBlank config.author.name, "'git.author_name' must not be empty"⟩,
    ⟨NotBlank config.author.email, "'git.author_email' must not be empty"⟩,
    remoteRule config]

/-- A rule is the first that does not hold. -/
def Breaks (config : Config) (rule : Rule) : Prop :=
  ∃ before after, config.rules = before ++ rule :: after ∧ (∀ kept ∈ before, kept.Holds) ∧ ¬ rule.Holds

variable {config : Config}

/-- The rule for a name that must not be blank. -/
def requiredRule (field : String × String) : Rule :=
  ⟨NotBlank field.2, "'" ++ field.1 ++ "' must not be empty"⟩

theorem rules_eq (config : Config) :
    config.rules = config.required.map requiredRule ++ [remoteRule config] := rfl

/-- A configuration is valid, or the first rule that it breaks is the error. -/
theorem validate_cases (config : Config) :
    ((∀ rule ∈ config.rules, rule.Holds) ∧ config.validate = .ok ()) ∨
    ∃ rule, config.Breaks rule ∧ config.validate = .error (.invalidConfig rule.detail) := by
  rw [validate]
  -- the blank texts are looked for first, in their order; the slash in the remote comes last
  cases hBlank : config.required.find? fun f => (Text.trim f.2).isEmpty with
  | some field =>
      obtain ⟨hField, before, after, hRequired, hBefore⟩ := List.find?_eq_some_iff_append.1 hBlank
      refine .inr ⟨requiredRule field, ⟨before.map requiredRule, after.map requiredRule ++ [remoteRule config],
        by simp [rules_eq, hRequired], fun rule hRule => ?_, fun hHolds => ?_⟩, rfl⟩
      · obtain ⟨kept, hKept, rfl⟩ := List.mem_map.1 hRule
        exact notBlank_iff.2 (by simpa using hBefore kept hKept)
      · rw [notBlank_iff.1 hHolds] at hField
        cases hField
  | none =>
      have hRequired : ∀ rule ∈ config.required.map requiredRule, rule.Holds := by
        intro rule hRule
        obtain ⟨kept, hKept, rfl⟩ := List.mem_map.1 hRule
        exact notBlank_iff.2 (by simpa using List.find?_eq_none.1 hBlank kept hKept)
      by_cases hSlash : '/' ∈ config.repository.remote.toList
      · refine .inr ⟨remoteRule config, ⟨_, [], rules_eq config, hRequired, not_not.2 hSlash⟩, ?_⟩
        simp only [List.contains_iff_mem.2 hSlash, if_true]
        rfl
      · refine .inl ⟨?_, by simp [hSlash]⟩
        rw [rules_eq]
        exact List.forall_mem_append.2 ⟨hRequired, by simpa [remoteRule] using hSlash⟩

/-- The defaults are valid. -/
theorem default_rules : ∀ rule ∈ Config.default.rules, rule.Holds := by
  have hDefault (text : String) (h : text ∈ ["origin", "master", "passync", "passync@localhost"]) :
      NotBlank text := by
    have hTrimmed : ∀ text ∈ ["origin", "master", "passync", "passync@localhost"],
        (Text.trim text).isEmpty = false := by decide
    exact notBlank_iff.2 (hTrimmed text h)
  have hRemote : '/' ∉ "origin".toList := by decide
  simpa [rules, remoteRule, Config.default, hRemote] using hDefault

/-- A configuration that passes its checks breaks no rule. -/
theorem not_breaks_of_holds (h : ∀ rule ∈ config.rules, rule.Holds) {rule : Rule} : ¬ config.Breaks rule := by
  rintro ⟨before, after, hRules, -, hBroken⟩
  exact hBroken (h rule (by simp [hRules]))

end Config

end VaultSync
