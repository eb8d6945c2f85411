import VaultSync.Proofs.Config.Rules
import VaultSync.Proofs.Entries.Store
import VaultSync.Proofs.Files.Joined

/-! Where the names of entries lead. What is checked are the steps of a name, and what is written is the name
with the extension behind it; both have the same directories, so an accepted name leads to a file strictly below
the store, and two names lead to one file just when they spell out the same directories and end alike. -/
namespace VaultSync.Entries

open Files VaultSync.Path

variable {files : Files} {root name other path : String} {loc : Location}

/-! ### Steps of a name -/

/-- The directories that a name spells out. -/
def directories (name : String) : List String :=
  spelled (Text.splitOnChar '/' name).dropLast

/-- What a name says behind its last slash. -/
def leaf (name : String) : String :=
  (Text.splitOnChar '/' name).getLastD ""

/-- The names from the store down to the file of an entry. -/
def names (name : String) : List String :=
  directories name ++ [leaf name ++ ".age"]

/-- The parts of a name are its directories and its leaf. -/
theorem splitOnChar_eq (name : String) :
    Text.splitOnChar '/' name = (Text.splitOnChar '/' name).dropLast ++ [leaf name] := by
  rw [leaf, List.getLastD_eq_getLast?, List.getLast?_eq_getLast_of_ne_nil (splitOnChar_ne_nil name),
    Option.getD_some, List.dropLast_append_getLast]

theorem leaf_mem (name : String) : leaf name ∈ Text.splitOnChar '/' name := by
  rw [splitOnChar_eq]
  exact List.mem_concat_self

/-- The extension stays with what stands behind the last slash. -/
theorem splitOnChar_file (name : String) : Text.splitOnChar '/' (name ++ "." ++ fileExtension) =
    (Text.splitOnChar '/' name).dropLast ++ [leaf name ++ ".age"] := by
  obtain ⟨front, last, hParts, hMore⟩ :=
    Text.splitChars_append_of_notMem name.toList (show '/' ∉ suffix by decide)
  have hChars : (name ++ "." ++ fileExtension).toList = name.toList ++ suffix := by
    simp [fileExtension, suffix]
  have hSuffix : String.ofList suffix = ".age" := rfl
  have hName : Text.splitOnChar '/' name = front.map String.ofList ++ [String.ofList last] := by
    rw [Text.splitOnChar, hParts, List.map_append, List.map_singleton]
  rw [leaf, hName, List.dropLast_concat, List.getLastD_concat, Text.splitOnChar, hChars, hMore,
    List.map_append, List.map_singleton, String.ofList_append, hSuffix]

/-- The file of an entry has a name that is none of those with a meaning of their own. -/
theorem isName_leaf (name : String) : IsName (leaf name ++ ".age") := by
  have hFile : leaf name ++ ".age" = fileName (leaf name).toList := by
    rw [fileName, String.ofList_append, String.ofList_toList]
    rfl
  exact hFile ▸ isName_fileName _

/-- The file of a name is its leaf with the extension, below its directories. -/
theorem spelled_file (name : String) :
    spelled (Text.splitOnChar '/' (name ++ "." ++ fileExtension)) = names name := by
  have hLeaf : spelled [leaf name ++ ".age"] = [leaf name ++ ".age"] :=
    List.filter_cons_of_pos (decide_eq_true ⟨(isName_leaf name).1, (isName_leaf name).2.1⟩)
  rw [splitOnChar_file, spelled_append, hLeaf, names, directories]

theorem slash_notMem_of_mem_names {part : String} (h : part ∈ names name) : '/' ∉ part.toList := by
  rcases List.mem_append.1 h with h | h
  · exact Text.notMem_of_mem_splitOnChar (List.dropLast_subset _ (mem_spelled.1 h).1)
  · rw [List.mem_singleton.1 h, String.toList_append, List.mem_append]
    exact not_or.2 ⟨Text.notMem_of_mem_splitOnChar (leaf_mem name), by decide⟩

/-- Two names with one file have the same leaf and the same directories. -/
theorem names_inj :
    names other = names name ↔ leaf other = leaf name ∧ directories other = directories name := by
  rw [names, names, ← List.concat_eq_append, ← List.concat_eq_append, List.concat_inj, and_comm,
    String.append_left_inj]

/-! ### Accepted names -/

/-- Names that are accepted: there is something to see, and no step leads elsewhere than down. -/
structure Accepted (name : String) : Prop where
  notBlank : ∃ c ∈ name.toList, Text.isBlank c = false
  relative : name.toList.head? ≠ some '/'
  below : (Text.splitOnChar '/' name).head? ≠ some "."
  down : ".." ∉ Text.splitOnChar '/' name

/-- A step that goes down by a name. -/
def isDown : Component → Bool
  | .name _ => true
  | _ => false

theorem isName_eq (name : String) :
    isName name = (!(Text.trim name).isEmpty && (components name).all isDown) := rfl

/-- The mark of a name leads down when the name is not absolute and does not start with the step `.`. -/
theorem all_isDown_mark (name : String) : (mark name).all isDown = true ↔
    name.toList.head? ≠ some '/' ∧ (Text.splitOnChar '/' name).head? ≠ some "." := by
  rw [mark]
  split
  · simp_all [isDown]
  · split <;> simp_all [isDown]

/-- Steps lead down when none of them is `..`. -/
theorem all_isDown_steps (parts : List String) :
    ((spelled parts).map stepOf).all isDown = true ↔ ".." ∉ parts := by
  rw [List.all_eq_true]
  constructor
  · intro h hUp
    exact absurd (h _ (List.mem_map_of_mem (mem_spelled.2 ⟨hUp, by decide, by decide⟩))) (by decide)
  · intro h step hStep
    obtain ⟨part, hPart, rfl⟩ := List.mem_map.1 hStep
    rw [stepOf, if_neg]
    · rfl
    · rintro rfl
      exact h (mem_spelled.1 hPart).1

/-- The check on names accepts exactly the names of `Accepted`. -/
theorem isName_eq_true_iff : isName name = true ↔ Accepted name := by
  have hSeen : (!(Text.trim name).isEmpty) = true ↔ ∃ c ∈ name.toList, Text.isBlank c = false := by
    rw [Bool.not_eq_true', ← Config.notBlank_iff]
    rfl
  rw [isName_eq, components_eq, Bool.and_eq_true, List.all_append, Bool.and_eq_true, hSeen, all_isDown_mark,
    all_isDown_steps]
  constructor
  · rintro ⟨hSeen, ⟨hRelative, hBelow⟩, hDown⟩
    exact ⟨hSeen, hRelative, hBelow, hDown⟩
  · intro h
    exact ⟨h.notBlank, ⟨h.relative, h.below⟩, h.down⟩

/-- A name has a location exactly when it is accepted. -/
theorem exists_location_iff (root name : String) : (∃ path, location root name = .ok path) ↔ Accepted name := by
  rw [location, ← isName_eq_true_iff]
  split <;> simp_all

namespace Accepted

variable (h : Accepted name)

include h

/-- Each part of an accepted name names a file. -/
theorem isName_of_mem {part : String} (hPart : part ∈ names name) : IsName part := by
  rcases List.mem_append.1 hPart with hPart | hPart
  · obtain ⟨hMem, hSome, hHere⟩ := mem_spelled.1 hPart
    refine ⟨hSome, hHere, ?_⟩
    rintro rfl
    exact h.down (List.dropLast_subset _ hMem)
  · rw [List.mem_singleton.1 hPart]
    exact isName_leaf name

/-- The file of an accepted name is relative. -/
theorem isAbsolute_file : isAbsolute (name ++ "." ++ fileExtension) = false := by
  have hHead := h.relative
  rw [isAbsolute, decide_eq_false_iff_not, String.toList_append, String.toList_append]
  cases hChars : name.toList with
  | nil => simp
  | cons c cs => simpa [hChars] using hHead

/-- The path of the file of an accepted name does not start with the step `.`. -/
theorem head?_file : (Text.splitOnChar '/' (name ++ "." ++ fileExtension)).head? ≠ some "." := by
  have hHead := h.below
  rw [splitOnChar_eq] at hHead
  rw [splitOnChar_file]
  cases hFront : (Text.splitOnChar '/' name).dropLast with
  | nil => simpa using (isName_leaf name).2.1
  | cons part parts => simpa [hFront] using hHead

/-- The steps of the path are those of the store and then the names of the entry. -/
theorem components_eq (root : String) :
    components (join root (name ++ "." ++ fileExtension)) = components root ++ (names name).map .name := by
  have hMark : mark (name ++ "." ++ fileExtension) = [] := by
    rw [mark, if_neg (by simpa [isAbsolute] using h.isAbsolute_file), if_neg h.head?_file]
  rw [components_join root h.isAbsolute_file h.head?_file, Path.components_eq (name ++ _ ++ _), hMark,
    List.nil_append, spelled_file]
  refine congrArg _ (List.map_congr_left fun part hPart => if_neg (h.isName_of_mem hPart).2.2)

/-- The path leads from the store straight down. -/
theorem destination_eq (files : Files) (root : String) :
    files.destination (join root (name ++ "." ++ fileExtension)) = files.destination root ++ names name := by
  rw [destination_join files root h.isAbsolute_file, ← foldl_next_spelled, spelled_file,
    foldl_next_of_names fun _ => h.isName_of_mem]

end Accepted

theorem accepted_of_location (h : location root name = .ok path) : Accepted name :=
  (exists_location_iff root name).1 ⟨path, h⟩

/-- The location of a name is the root and then the parts of the name. -/
theorem components_location (h : location root name = .ok path) :
    components path = components root ++ (names name).map .name := by
  obtain ⟨-, rfl⟩ := location_eq_ok h
  exact (accepted_of_location h).components_eq root

/-- The file of a name lies where its parts lead below the root. -/
theorem destination_location (h : location root name = .ok path) (files : Files) :
    files.destination path = files.destination root ++ names name := by
  obtain ⟨-, rfl⟩ := location_eq_ok h
  exact (accepted_of_location h).destination_eq files root

/-- A name is accepted when there is something to see in it, it does not start with a slash, its first part is not
a single dot and none of its parts is a double one. Its path then has the steps of the store and below them
ordinary names, the last of which ends in the extension, and on every file system it leads down from where the
store lies. Two accepted names have one file just when what stands behind their last slashes is the same and
the parts before, without empty ones and single dots, are the same. -/
theorem location_stays_below (root name : String) :
    ((∃ path, location root name = .ok path) ↔
      (∃ c ∈ name.toList, Text.isBlank c = false) ∧ name.toList.head? ≠ some '/' ∧
        (Text.splitOnChar '/' name).head? ≠ some "." ∧ ".." ∉ Text.splitOnChar '/' name) ∧
    ∀ path, location root name = .ok path →
      components path = components root ++ (directories name ++ [leaf name ++ ".age"]).map .name ∧
      (∀ part ∈ directories name ++ [leaf name ++ ".age"], IsName part ∧ '/' ∉ part.toList) ∧
      (∀ files : Files, ∀ loc, files.resolve path = .ok loc →
        loc = files.destination root ++ (directories name ++ [leaf name ++ ".age"])) ∧
      ∀ other path', location root other = .ok path' →
        (components path' = components path ↔
          leaf other = leaf name ∧ directories other = directories name) ∧
        ∀ files : Files, ∀ loc loc', files.resolve path = .ok loc → files.resolve path' = .ok loc' →
          (loc' = loc ↔ leaf other = leaf name ∧ directories other = directories name) := by
  refine ⟨?_, fun path hPath => ⟨components_location hPath, fun part hPart =>
    ⟨(accepted_of_location hPath).isName_of_mem hPart, slash_notMem_of_mem_names hPart⟩, fun files loc hLoc => ?_,
    fun other path' hPath' => ⟨?_, fun files loc loc' hLoc hLoc' => ?_⟩⟩⟩
  · rw [exists_location_iff]
    exact ⟨fun h => ⟨h.notBlank, h.relative, h.below, h.down⟩,
      fun ⟨hSeen, hRelative, hBelow, hDown⟩ => ⟨hSeen, hRelative, hBelow, hDown⟩⟩
  · rw [← destination_of_resolve hLoc, destination_location hPath]
    rfl
  · rw [components_location hPath, components_location hPath', List.append_cancel_left_eq,
      List.map_inj_right fun _ _ => Component.name.inj, names_inj]
  · rw [← destination_of_resolve hLoc, ← destination_of_resolve hLoc', destination_location hPath,
      destination_location hPath', List.append_cancel_left_eq, names_inj]

end VaultSync.Entries
