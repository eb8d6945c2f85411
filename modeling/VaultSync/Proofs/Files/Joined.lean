import Mathlib.Data.List.Basic
import VaultSync.Proofs.Files.Tree

/-! Paths that were put together. A joined path has the steps of its base and then those of what was joined to
it, and leads on from where the base leads to. -/
namespace VaultSync

namespace Path

variable {base path : String} {parts more : List String}

/-- Parts of a path that lead somewhere. The others are empty or a single dot. -/
def spelled (parts : List String) : List String :=
  parts.filter fun part => part ≠ "" ∧ part ≠ "."

theorem mem_spelled {part : String} : part ∈ spelled parts ↔ part ∈ parts ∧ part ≠ "" ∧ part ≠ "." := by
  simp [spelled]

/-- A part that is empty or `.` is not spelled out. -/
theorem spelled_cons (part : String) (parts : List String) :
    spelled (part :: parts) = if part = "" ∨ part = "." then spelled parts else part :: spelled parts := by
  by_cases hPart : part = "" ∨ part = "."
  · rw [if_pos hPart]
    exact List.filter_cons_of_neg (by simpa [← or_iff_not_imp_left] using hPart)
  · rw [if_neg hPart]
    exact List.filter_cons_of_pos (by simpa [not_or] using hPart)

theorem spelled_append : spelled (parts ++ more) = spelled parts ++ spelled more := by
  rw [spelled, List.filter_append]
  rfl

/-- What a part stands for. -/
def stepOf (part : String) : Component :=
  if part = ".." then .parent else .name part

/-- The mark at the front of a path that says where it starts. -/
def mark (path : String) : List Component :=
  if path.toList.head? = some '/' then [.root]
  else if (Text.splitOnChar '/' path).head? = some "." then [.current]
  else []

theorem components_eq (path : String) :
    components path = mark path ++ (spelled (Text.splitOnChar '/' path)).map stepOf := rfl

/-- A relative path is joined by a slash, unless the base ends in one or is empty. -/
theorem join_cases (base : String) (hRelative : isAbsolute path = false) :
    base = "" ∧ join base path = path ∨
      base ≠ "" ∧ ∃ dir, join base path = dir ++ "/" ++ path ∧ (base = dir ∨ base = dir ++ "/") := by
  by_cases hEmpty : base = ""
  · exact .inl ⟨hEmpty, by simp [join, hEmpty]⟩
  · refine .inr ⟨hEmpty, ?_⟩
    rw [join, hRelative, Bool.false_or, if_neg (by simpa using hEmpty)]
    split
    · rename_i hSlash
      obtain ⟨chars, hBase⟩ := List.getLast?_eq_some_iff.1 hSlash
      have hDir : base = String.ofList chars ++ "/" := by
        rw [← String.toList_inj, hBase]
        simp
      exact ⟨String.ofList chars, by rw [hDir], .inr hDir⟩
    · exact ⟨base, rfl, .inl rfl⟩

/-- A slash at the end is one more empty part. -/
theorem splitOnChar_end (dir : String) :
    Text.splitOnChar '/' (dir ++ "/") = Text.splitOnChar '/' dir ++ [""] := by
  have hNone : Text.splitOnChar '/' "" = [""] := Text.splitOnChar_of_notMem (by decide)
  have hSplit := Text.splitOnChar_slash dir ""
  rwa [String.append_empty, hNone] at hSplit

theorem splitOnChar_ne_nil (path : String) : Text.splitOnChar '/' path ≠ [] := by
  rw [Text.splitOnChar, Ne, List.map_eq_nil_iff]
  exact Text.splitChars_ne_nil _

/-- A joined path starts with the character that its base starts with. -/
theorem head?_join {dir : String} (hBase : base ≠ "") (hDir : base = dir ∨ base = dir ++ "/") :
    (dir ++ "/" ++ path).toList.head? = base.toList.head? := by
  have hChars : base.toList ≠ [] := by simpa using hBase
  rcases hDir with rfl | rfl
  · rw [String.toList_append, String.toList_append, List.append_assoc, List.head?_append_of_ne_nil _ hChars]
  · rw [String.toList_append, List.head?_append_of_ne_nil _ hChars]

/-- The mark of a joined path is that of its base. -/
theorem mark_join {dir : String} (hBase : base ≠ "") (hDir : base = dir ∨ base = dir ++ "/") :
    mark (dir ++ "/" ++ path) = mark base := by
  have hHead : (Text.splitOnChar '/' (dir ++ "/" ++ path)).head? = (Text.splitOnChar '/' base).head? := by
    rw [Text.splitOnChar_slash, List.head?_append_of_ne_nil _ (splitOnChar_ne_nil dir)]
    rcases hDir with rfl | rfl
    · rfl
    · rw [splitOnChar_end, List.head?_append_of_ne_nil _ (splitOnChar_ne_nil dir)]
  rw [mark, mark, hHead, head?_join hBase hDir]

/-- A path that does not say where it starts goes on where the base ends. -/
theorem components_join (base : String) (hRelative : isAbsolute path = false)
    (hHere : (Text.splitOnChar '/' path).head? ≠ some ".") :
    components (join base path) = components base ++ components path := by
  have hPath : mark path = [] := by
    rw [mark, if_neg (by simpa [isAbsolute] using hRelative), if_neg hHere]
  rcases join_cases base hRelative with ⟨rfl, hJoin⟩ | ⟨hBase, dir, hJoin, hDir⟩
  · have hNone : components "" = [] := by decide
    rw [hJoin, hNone, List.nil_append]
  · rw [hJoin, components_eq, components_eq base, components_eq path, mark_join hBase hDir, hPath,
      Text.splitOnChar_slash, spelled_append, List.map_append, List.nil_append, ← List.append_assoc]
    rcases hDir with rfl | rfl
    · rfl
    · have hLast : spelled [""] = [] := rfl
      rw [splitOnChar_end, spelled_append, hLast, List.append_nil]

end Path

namespace Files

variable {files : Files} {loc : Location} {base path : String} {parts : List String}

/-- Only the parts that lead somewhere matter for where a path leads to. -/
theorem foldl_next_spelled (parts : List String) (loc : Location) :
    (Path.spelled parts).foldl next loc = parts.foldl next loc := by
  induction parts generalizing loc with
  | nil => rfl
  | cons part parts ih =>
      rw [Path.spelled_cons, List.foldl_cons, next]
      split
      · exact ih loc
      · rename_i hPart
        rw [List.foldl_cons, ih, next, if_neg hPart]

/-- Parts that never lead up lead down. -/
theorem foldl_next_of_names (h : ∀ part ∈ parts, IsName part) (loc : Location) :
    parts.foldl next loc = loc ++ parts := by
  induction parts generalizing loc with
  | nil => simp
  | cons part parts ih =>
      rw [List.foldl_cons, next_name (h part List.mem_cons_self),
        ih (fun other hOther => h other (List.mem_cons_of_mem _ hOther)), List.append_assoc,
        List.singleton_append]

/-- A relative path that is joined starts where its base starts. -/
theorem start_join (files : Files) (base : String) (hRelative : Path.isAbsolute path = false) :
    files.start (Path.join base path) = files.start base := by
  rcases Path.join_cases base hRelative with ⟨rfl, hJoin⟩ | ⟨hBase, dir, hJoin, hDir⟩
  · rw [hJoin, start, start, hRelative]
    rfl
  · rw [hJoin, start, start, Path.isAbsolute, Path.isAbsolute, Path.head?_join hBase hDir]

/-- A relative path leads on from where its base leads to. -/
theorem destination_join (files : Files) (base : String) (hRelative : Path.isAbsolute path = false) :
    files.destination (Path.join base path) =
      (Text.splitOnChar '/' path).foldl next (files.destination base) := by
  rw [destination, destination, start_join files base hRelative]
  rcases Path.join_cases base hRelative with ⟨rfl, hJoin⟩ | ⟨-, dir, hJoin, hDir⟩
  · rw [hJoin]
    rfl
  · rw [hJoin, Text.splitOnChar_slash, List.foldl_append]
    rcases hDir with rfl | rfl
    · rfl
    · rw [Path.splitOnChar_end, List.foldl_append]
      rfl

/-- A relative path only leads on from a base that is a directory. -/
theorem exists_base_of_resolve_join (hRelative : Path.isAbsolute path = false) (hBase : base ≠ "")
    (h : files.resolve (Path.join base path) = .ok loc) :
    ∃ above, files.resolve base = .ok above ∧ files.lookup above = some .directory := by
  obtain ⟨hNul, -, hLong, hWalk⟩ := resolve_eq_ok.1 h
  obtain ⟨hEmpty, -⟩ | ⟨-, dir, hJoin, hDir⟩ := Path.join_cases base hRelative
  · exact absurd hEmpty hBase
  rw [start_join files base hRelative, hJoin, Text.splitOnChar_slash] at hWalk
  obtain ⟨above, hAbove, hOn⟩ := walk_append_eq_ok.1 hWalk
  have hThere : files.lookup above = some .directory := by
    obtain ⟨part, parts, hParts⟩ := List.exists_cons_of_ne_nil (Path.splitOnChar_ne_nil path)
    rw [hParts] at hOn
    exact (walk_cons_eq_ok.1 hOn).1
  -- What is written of the base is the start of the joined path, also if it ends in a slash.
  have hFront : ∃ rest, Path.join base path = base ++ rest := by
    rcases hDir with rfl | rfl
    · exact ⟨"/" ++ path, by rw [hJoin, String.append_assoc]⟩
    · exact ⟨path, hJoin⟩
  obtain ⟨rest, hRest⟩ := hFront
  rw [hRest, String.toList_append, List.mem_append, not_or] at hNul
  rw [hRest, String.utf8ByteSize_append] at hLong
  refine ⟨above, resolve_eq_ok.2 ⟨hNul.1, hBase, by omega, ?_⟩, hThere⟩
  rcases hDir with rfl | rfl
  · exact hAbove
  · rw [Path.splitOnChar_end]
    exact walk_append_eq_ok.2 ⟨above, hAbove, walk_cons_eq_ok.2 ⟨hThere, fun hName => absurd rfl hName.1, rfl⟩⟩

end Files

end VaultSync
