import VaultSync.Keys.KeyFile
import VaultSync.Proofs.Text.Lines

/-! The line of a key file that holds its secret. It is the first one that starts as a secret does once the blanks
around it are gone. Lines before it that start otherwise, blanks around it and whatever comes behind it do not
matter. -/
namespace VaultSync.KeyPair

variable {text line : String}

/-- Whether a line starts as a secret does, without the blanks around it. -/
def IsSecret (row : String) : Prop :=
  secretMark <+: (Text.trim row).toList

/-- The first line of a text that starts as a secret does, without the blanks around it. -/
def FirstSecret (text line : String) : Prop :=
  ∃ before row after, Text.lines text = before ++ row :: after ∧ Text.trim row = line ∧ IsSecret row ∧
    ∀ other ∈ before, ¬ IsSecret other

/-- A line is one of a secret when it starts with the mark after trimming. -/
theorem isSecret_ofList {cs : List Char} : IsSecret (String.ofList cs) ↔ secretMark <+: Text.trimChars cs := by
  rw [IsSecret, Text.trim, String.toList_ofList, String.toList_ofList]

theorem isPrefixOf_iff_isSecret {row : String} :
    secretMark.isPrefixOf (Text.trim row).toList = true ↔ IsSecret row :=
  List.isPrefixOf_iff_prefix

/-- The line of the secret is the first with the mark, trimmed. -/
theorem secretLine?_eq (text : String) : secretLine? text =
    ((Text.lines text).find? fun row => secretMark.isPrefixOf (Text.trim row).toList).map Text.trim := by
  simp [secretLine?, Text.lines, Text.trim, List.find?_map, Function.comp_def, Option.map_map]

/-- A line is found exactly when it is the first of a secret. -/
theorem secretLine?_eq_some_iff : secretLine? text = some line ↔ FirstSecret text line := by
  rw [secretLine?_eq, Option.map_eq_some_iff]
  constructor
  · rintro ⟨row, hFind, hTrim⟩
    obtain ⟨hSecret, before, after, hLines, hBefore⟩ := List.find?_eq_some_iff_append.1 hFind
    refine ⟨before, row, after, hLines, hTrim, isPrefixOf_iff_isSecret.1 hSecret, fun other hOther => ?_⟩
    rw [← isPrefixOf_iff_isSecret, Bool.not_eq_true, ← Bool.not_eq_true']
    exact hBefore other hOther
  · rintro ⟨before, row, after, hLines, hTrim, hSecret, hBefore⟩
    refine ⟨row, List.find?_eq_some_iff_append.2 ⟨isPrefixOf_iff_isSecret.2 hSecret, before, after, hLines,
      fun other hOther => ?_⟩, hTrim⟩
    rw [Bool.not_eq_true', ← Bool.not_eq_true, isPrefixOf_iff_isSecret]
    exact hBefore other hOther

/-- None is found exactly when no line is one of a secret. -/
theorem secretLine?_eq_none_iff : secretLine? text = none ↔ ∀ row ∈ Text.lines text, ¬ IsSecret row := by
  rw [secretLine?_eq, Option.map_eq_none_iff, List.find?_eq_none]
  exact forall₂_congr fun row _ => not_congr isPrefixOf_iff_isSecret

/-- The first line of a secret decides the identity. -/
theorem identityOf_of_firstSecret {bytes : ByteArray} (hText : String.fromUTF8? bytes = some text)
    (hFirst : FirstSecret text line) : identityOf bytes = (Age.Identity.parse line).mapError invalid := by
  simp only [identityOf, hText, secretLine?_eq_some_iff.2 hFirst]
  cases Age.Identity.parse line <;> rfl

/-- A secret that stands behind any rows that hold none, with blanks around it, is the one of its text. Its line is
the last one or is ended by a line break, also by one with a carriage return. -/
theorem firstSecret_around {rows : List (List Char)} {front line back ending : List Char}
    (hRows : ∀ row ∈ rows, '\n' ∉ row ∧ ¬ secretMark <+: Text.trimChars row)
    (hFront : ∀ c ∈ front, Text.isBlank c = true ∧ c ≠ '\n') (hBack : ∀ c ∈ back, Text.isBlank c = true ∧ c ≠ '\n')
    (hMark : secretMark <+: line) (hBreak : '\n' ∉ line) (hTrim : Text.trimChars line = line)
    (hEnding : ending = [] ∨ ∃ more, ending = '\n' :: more) :
    FirstSecret (String.ofList (rows.flatMap (· ++ ['\n']) ++ (front ++ line ++ back ++ ending)))
      (String.ofList line) := by
  have hWhole : '\n' ∉ front ++ line ++ back := by
    simp only [List.mem_append, not_or]
    exact ⟨⟨fun hMem => (hFront _ hMem).2 rfl, hBreak⟩, fun hMem => (hBack _ hMem).2 rfl⟩
  have hSome : front ++ line ++ back ≠ [] := by
    intro hNil
    obtain ⟨-, rfl, -⟩ : front = [] ∧ line = [] ∧ back = [] := by simpa using hNil
    exact absurd (List.prefix_nil.1 hMark) (by decide)
  -- behind the rows the text goes on with the line of the secret, and what ends it does not matter
  obtain ⟨row, after, hLines, hRow⟩ := Text.exists_head_lineChars hWhole hSome hEnding
  rw [Text.trimChars_surround (fun c hc => (hFront c hc).1) (fun c hc => (hBack c hc).1), hTrim] at hRow
  refine ⟨(rows.map Text.dropReturn).map String.ofList, String.ofList row, after.map String.ofList, ?_, ?_, ?_, ?_⟩
  · rw [Text.lines, String.toList_ofList, Text.lineChars_rows fun row hMem => (hRows row hMem).1, hLines,
      List.map_append, List.map_cons]
  · rw [Text.trim, String.toList_ofList, hRow]
  · rw [isSecret_ofList, hRow]
    exact hMark
  · intro other hOther
    obtain ⟨_, hMem, rfl⟩ := List.mem_map.1 hOther
    obtain ⟨kept, hKept, rfl⟩ := List.mem_map.1 hMem
    rw [isSecret_ofList, Text.trimChars_dropReturn]
    exact (hRows kept hKept).2

end VaultSync.KeyPair
