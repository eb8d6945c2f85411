import VaultSync.Proofs.Files.Joined

/-! Which directories are made on the way to a path, and what a file changes that is written there. Each directory
that is made is where some part of the path leads to, so below a directory that is there already they all lie on
the way from it to the file. -/
namespace VaultSync

namespace Path

variable {base path parent part : String} {parts : List String}

/-! ### The path above -/

/-- Parts without a slash that are joined are split back. -/
theorem splitOnChar_intercalate (h : ∀ part ∈ parts, '/' ∉ part.toList) (hSome : parts ≠ []) :
    Text.splitOnChar '/' (String.intercalate "/" parts) = parts := by
  induction parts with
  | nil => exact absurd rfl hSome
  | cons part parts ih =>
      have hPart := Text.splitOnChar_of_notMem (h part List.mem_cons_self)
      by_cases hLast : parts = []
      · rw [hLast, String.intercalate_singleton, hPart]
      · rw [String.intercalate_cons_of_ne_nil hLast, Text.splitOnChar_slash, hPart,
          ih (fun other hOther => h other (List.mem_cons_of_mem _ hOther)) hLast]
        rfl

/-- Parts that are joined are spelled out as they are. -/
theorem spelled_intercalate (h : ∀ part ∈ parts, '/' ∉ part.toList) :
    spelled (Text.splitOnChar '/' (String.intercalate "/" parts)) = spelled parts := by
  by_cases hSome : parts = []
  · subst hSome
    decide
  · rw [splitOnChar_intercalate h hSome]

/-- Parts that lead somewhere never put a slash at the front of a path. -/
theorem isAbsolute_intercalate (h : ∀ part ∈ parts, part ≠ "" ∧ '/' ∉ part.toList) :
    isAbsolute (String.intercalate "/" parts) = false := by
  rw [isAbsolute, decide_eq_false_iff_not]
  cases parts with
  | nil => simp
  | cons part parts =>
      obtain ⟨hSome, hSlash⟩ := h part List.mem_cons_self
      have hFront : ∃ rest, String.intercalate "/" (part :: parts) = part ++ rest := by
        by_cases hLast : parts = []
        · exact ⟨"", by rw [hLast, String.intercalate_singleton, String.append_empty]⟩
        · exact ⟨_, by rw [String.intercalate_cons_of_ne_nil hLast, String.append_assoc]⟩
      obtain ⟨rest, hRest⟩ := hFront
      rw [hRest, String.toList_append, List.head?_append_of_ne_nil _ (by simpa using hSome)]
      exact fun hHead => hSlash (List.mem_of_head? hHead)

/-- A part that became a step is written as itself. -/
theorem step_stepOf (part : String) : ofComponents.step (stepOf part) = part := by
  rw [stepOf]
  split
  · rename_i hUp
    exact hUp.symm
  · rfl

/-- An absolute path is a slash and then its steps. -/
theorem ofComponents_root (steps : List Component) : ofComponents (.root :: steps) =
    "/" ++ String.intercalate "/" (steps.map ofComponents.step) := by
  cases steps with
  | nil => simp [ofComponents]
  | cons step steps => rfl

/-- A relative path is its steps with slashes between. -/
theorem ofComponents_of_ne_root {steps : List Component} (h : .root ∉ steps) :
    ofComponents steps = String.intercalate "/" (steps.map ofComponents.step) := by
  cases steps with
  | nil => simp [ofComponents]
  | cons step steps =>
      cases step with
      | root => exact absurd List.mem_cons_self h
      | current | parent | name => rfl

/-- What is written down of the start of a path and of parts that lead somewhere starts there and has those
parts. -/
theorem spelled_ofComponents (path : String)
    (hParts : ∀ part ∈ parts, part ≠ "" ∧ part ≠ "." ∧ '/' ∉ part.toList) :
    isAbsolute (ofComponents (mark path ++ parts.map stepOf)) = isAbsolute path ∧
      spelled (Text.splitOnChar '/' (ofComponents (mark path ++ parts.map stepOf))) = parts := by
  have hSteps : (parts.map stepOf).map ofComponents.step = parts := by
    rw [List.map_map]
    exact (List.map_congr_left fun part _ => step_stepOf part).trans (List.map_id' parts)
  have hNames : Component.root ∉ parts.map stepOf := fun hRoot => by
    obtain ⟨part, -, hPart⟩ := List.mem_map.1 hRoot
    rw [stepOf] at hPart
    split at hPart <;> cases hPart
  have hSame : spelled parts = parts :=
    List.filter_eq_self.2 fun part hPart => decide_eq_true ⟨(hParts part hPart).1, (hParts part hPart).2.1⟩
  have hSplit := spelled_intercalate fun part hPart => (hParts part hPart).2.2
  rw [hSame] at hSplit
  -- absolute, starting with a dot, or plainly relative: the three ways a path can begin
  rw [mark]
  split
  · rename_i hRoot
    have hSlash := Text.splitOnChar_slash "" (String.intercalate "/" parts)
    rw [String.empty_append] at hSlash
    rw [List.singleton_append, ofComponents_root, hSteps, hSlash, spelled_append, hSplit]
    exact ⟨by simp [isAbsolute, hRoot], rfl⟩
  · rename_i hRoot
    have hRelative : isAbsolute path = false := decide_eq_false hRoot
    rw [hRelative]
    split
    · have hDot : ∀ part ∈ "." :: parts, part ≠ "" ∧ '/' ∉ part.toList := by
        rintro part (_ | ⟨_, hPart⟩)
        · decide
        · exact ⟨(hParts part hPart).1, (hParts part hPart).2.2⟩
      have hText : ofComponents ([.current] ++ parts.map stepOf) = String.intercalate "/" ("." :: parts) := by
        rw [ofComponents_of_ne_root (by simpa using hNames), List.map_append, hSteps]
        rfl
      rw [hText]
      exact ⟨isAbsolute_intercalate hDot, (spelled_intercalate fun part hPart => (hDot part hPart).2).trans hSame⟩
    · rw [List.nil_append, ofComponents_of_ne_root hNames, hSteps]
      exact ⟨isAbsolute_intercalate fun part hPart => ⟨(hParts part hPart).1, (hParts part hPart).2.2⟩, hSplit⟩

/-- The path above starts where a path starts, and leads along all its steps but the last one. -/
theorem parent?_eq_some (h : parent? path = some parent)
    (hParts : spelled (Text.splitOnChar '/' path) = parts ++ [part]) :
    isAbsolute parent = isAbsolute path ∧ spelled (Text.splitOnChar '/' parent) = parts := by
  have hSteps : components path = (mark path ++ parts.map stepOf) ++ [stepOf part] := by
    rw [components_eq, hParts, List.map_append, List.append_assoc]
    rfl
  have hParent : parent = ofComponents (mark path ++ parts.map stepOf) := by
    have hLast : stepOf part ≠ .root := by
      rw [stepOf]
      split <;> simp
    rw [parent?, hSteps, List.getLast?_concat, List.dropLast_concat] at h
    split at h <;> simp_all
  rw [hParent]
  refine spelled_ofComponents path fun other hOther => ?_
  obtain ⟨hSplit, hSome, hHere⟩ := mem_spelled.1 (hParts ▸ List.mem_append_left [part] hOther)
  exact ⟨hSome, hHere, Text.notMem_of_mem_splitOnChar hSplit⟩

/-- A relative path is spelled out behind its base. -/
theorem spelled_join (base : String) (hRelative : isAbsolute path = false) :
    spelled (Text.splitOnChar '/' (join base path)) =
      spelled (Text.splitOnChar '/' base) ++ spelled (Text.splitOnChar '/' path) := by
  rcases join_cases base hRelative with ⟨rfl, hJoin⟩ | ⟨-, dir, hJoin, hDir⟩
  · have hNone : spelled (Text.splitOnChar '/' "") = [] := by decide
    rw [hJoin, hNone, List.nil_append]
  · rw [hJoin, Text.splitOnChar_slash, spelled_append]
    rcases hDir with rfl | rfl
    · rfl
    · have hLast : spelled [""] = [] := rfl
      rw [splitOnChar_end, spelled_append, hLast, List.append_nil]

end Path

namespace Files

variable {files files' made : Files} {loc last l : Location} {root path part : String}
  {parts names : List String} {places others : Location → Prop}

/-! ### Directories on the way -/

/-- Directories were made at some places, where nothing was, and nothing else changed. -/
def GrowsAt (places : Location → Prop) (files files' : Files) : Prop :=
  ∀ l, files'.lookup l = files.lookup l ∨
    files.lookup l = none ∧ files'.lookup l = some .directory ∧ places l

namespace GrowsAt

theorem refl (places : Location → Prop) (files : Files) : GrowsAt places files files :=
  fun _ => .inl rfl

theorem mono (h : GrowsAt places files files') (hPlaces : ∀ l, places l → others l) :
    GrowsAt others files files' :=
  fun l => (h l).imp_right fun ⟨hNone, hMade, hPlace⟩ => ⟨hNone, hMade, hPlaces l hPlace⟩

theorem trans {files'' : Files} (h : GrowsAt places files files') (h' : GrowsAt places files' files'') :
    GrowsAt places files files'' := by
  intro l
  rcases h' l with hSame | ⟨hNone, hMade, hPlace⟩
  · rw [hSame]
    exact h l
  · rcases h l with hSame | ⟨-, hMade', -⟩
    · exact .inr ⟨hSame ▸ hNone, hMade, hPlace⟩
    · rw [hNone] at hMade'
      cases hMade'

/-- What was there is still there. -/
theorem keeps {node : Node} (h : GrowsAt places files files') (hNode : files.lookup loc = some node) :
    files'.lookup loc = some node := by
  rcases h loc with hSame | ⟨hNone, -⟩
  · rw [hSame, hNode]
  · rw [hNone] at hNode
    cases hNode

/-- No file comes or goes. -/
theorem file_iff {content : ByteArray} {mode : Nat} (h : GrowsAt places files files') :
    files'.lookup loc = some (.file content mode) ↔ files.lookup loc = some (.file content mode) := by
  refine ⟨fun hFile => ?_, h.keeps⟩
  rcases h loc with hSame | ⟨-, hMade, -⟩
  · rw [← hSame, hFile]
  · rw [hMade] at hFile
    cases hFile

/-- A directory put where nothing lay is growth at its place. -/
theorem insert (hMissing : files.lookup loc = none) (hPlace : places loc) :
    GrowsAt places files (files.insert loc .directory) := by
  intro l
  by_cases hLoc : l = loc
  · subst hLoc
    have hRoot := ne_root_of_lookup (by rw [hMissing]; simp : files.lookup l ≠ some .directory)
    exact .inr ⟨hMissing, by rw [lookup_insert _ _ hRoot, if_pos rfl], hPlace⟩
  · exact .inl (lookup_insert_of_ne _ _ hLoc)

end GrowsAt

/-- Where the first parts of a path lead to. -/
def OnWay (loc : Location) (parts : List String) (l : Location) : Prop :=
  ∃ front, front <+: parts ∧ l = front.foldl next loc

/-- A place on the way from the next directory is on the way from here. -/
theorem OnWay.cons (h : OnWay (next loc part) parts l) : OnWay loc (part :: parts) l := by
  obtain ⟨front, hFront, hLoc⟩ := h
  exact ⟨part :: front, List.cons_prefix_cons.2 ⟨rfl, hFront⟩, hLoc⟩

/-- Parts that lead nowhere are on no way of their own. -/
theorem OnWay.spelled (h : OnWay loc parts l) : OnWay loc (Path.spelled parts) l := by
  obtain ⟨front, hFront, rfl⟩ := h
  exact ⟨Path.spelled front, hFront.filter _, (foldl_next_spelled front loc).symm⟩

/-- Every directory that is made is where some part of the path leads to. -/
theorem makeAlong_growsAt (files : Files) (loc : Location) (parts : List String) :
    GrowsAt (OnWay loc parts) files (files.makeAlong loc parts).2 := by
  -- from each directory on the way the rest of the way is looked at in the same manner
  induction parts generalizing files loc with
  | nil => exact .refl _ files
  | cons part parts ih =>
      have hOn (files : Files) : GrowsAt (OnWay loc (part :: parts)) files
          (files.makeAlong (next loc part) parts).2 := (ih files _).mono fun _ => OnWay.cons
      rw [makeAlong]
      split
      · rename_i hHere
        rw [next, if_pos hHere] at hOn
        exact hOn files
      · rename_i hSome
        rw [next, if_neg hSome] at hOn
        split
        · rename_i hUp
          rw [if_pos hUp] at hOn
          exact hOn files
        · rename_i hDown
          rw [if_neg hDown] at hOn
          split
          · exact hOn files
          · exact .refl _ files
          · rename_i hMissing
            split
            · exact .refl _ files
            · have hNext : next loc part = loc ++ [part] := by rw [next, if_neg hSome, if_neg hDown]
              have hPlace : OnWay loc (part :: parts) (loc ++ [part]) :=
                ⟨[part], List.cons_prefix_cons.2 ⟨rfl, List.nil_prefix⟩, hNext.symm⟩
              exact (GrowsAt.insert hMissing hPlace).trans (hOn _)

/-- The directories that are made lie on the way of the path. -/
theorem createDirAll_growsAt (files : Files) (path : String) :
    GrowsAt (OnWay (files.start path) (Path.spelled (Text.splitOnChar '/' path))) files
      (files.createDirAll path).2 := by
  rw [createDirAll]
  split
  · exact .refl _ files
  · split
    · exact .refl _ files
    · exact (makeAlong_growsAt files _ _).mono fun _ => OnWay.spelled

/-- The directories that lead to a path are made on the way to it. -/
theorem createParents_growsAt (files : Files)
    (hParts : Path.spelled (Text.splitOnChar '/' path) = parts ++ [part]) :
    GrowsAt (OnWay (files.start path) parts) files (files.createParents path).2 := by
  rw [createParents]
  split
  · rename_i parent hParent
    obtain ⟨hAbsolute, hSpelled⟩ := Path.parent?_eq_some hParent hParts
    have hMade := createDirAll_growsAt files parent
    rwa [hSpelled, start, hAbsolute] at hMade
  · exact .refl _ files

/-- A walk does not need the parts that lead nowhere. -/
theorem walk_spelled (h : files.walk loc parts = .ok last) : files.walk loc (Path.spelled parts) = .ok last := by
  induction parts generalizing loc with
  | nil => exact h
  | cons part parts ih =>
      obtain ⟨hEnter, hSize, hRest⟩ := walk_cons_eq_ok.1 h
      rw [Path.spelled_cons]
      split
      · rename_i hPart
        rw [next, if_pos hPart] at hRest
        exact ih hRest
      · exact walk_cons_eq_ok.2 ⟨hEnter, hSize, ih hRest⟩

/-- On the way to a directory that is there lie directories only. -/
theorem OnWay.lookup (h : OnWay (files.start path) (Path.spelled (Text.splitOnChar '/' path)) l)
    (hPath : files.resolve path = .ok loc) (hDir : files.lookup loc = some .directory) :
    files.lookup l = some .directory := by
  obtain ⟨front, ⟨rest, hParts⟩, rfl⟩ := h
  have hWalk := walk_spelled (resolve_eq_ok.1 hPath).2.2.2
  rw [← hParts] at hWalk
  obtain ⟨middle, hFront, hRest⟩ := walk_append_eq_ok.1 hWalk
  rw [foldl_next_of_walk hFront]
  exact lookup_start_of_walk hRest hDir

/-- On the way from a directory that is there down along names, what is not there yet lies below it. -/
theorem OnWay.below (hRoot : files.resolve root = .ok loc) (hDir : files.lookup loc = some .directory)
    (hNames : ∀ name ∈ names, IsName name) (hMissing : files.lookup l = none)
    (h : OnWay (files.start root) (Path.spelled (Text.splitOnChar '/' root) ++ names) l) :
    loc <+: l ∧ l <+: loc ++ names := by
  obtain ⟨front, hFront, hLoc⟩ := h
  rcases List.prefix_or_prefix_of_prefix hFront (List.prefix_append _ names) with hAbove | ⟨below, hBelow⟩
  · have hThere := OnWay.lookup ⟨front, hAbove, hLoc⟩ hRoot hDir
    rw [hMissing] at hThere
    cases hThere
  · rw [← hBelow, List.prefix_append_right_inj] at hFront
    have hStore : (Path.spelled (Text.splitOnChar '/' root)).foldl next (files.start root) = loc := by
      rw [foldl_next_spelled]
      exact destination_of_resolve hRoot
    rw [← hBelow, List.foldl_append, hStore,
      foldl_next_of_names fun name hName => hNames name (hFront.subset hName)] at hLoc
    rw [hLoc]
    exact ⟨List.prefix_append _ _, (List.prefix_append_right_inj _).2 hFront⟩

/-- For a path that is joined, directories are made on the way to its base and on from there. -/
theorem createParents_join_onWay (files : Files) (root : String) (hRelative : Path.isAbsolute path = false)
    (hParts : Path.spelled (Text.splitOnChar '/' path) = names ++ [part]) :
    GrowsAt (OnWay (files.start root) (Path.spelled (Text.splitOnChar '/' root) ++ names)) files
      (files.createParents (Path.join root path)).2 := by
  have hJoined : Path.spelled (Text.splitOnChar '/' (Path.join root path)) =
      (Path.spelled (Text.splitOnChar '/' root) ++ names) ++ [part] := by
    rw [Path.spelled_join root hRelative, hParts, List.append_assoc]
  exact start_join files root hRelative ▸ createParents_growsAt files hJoined

/-! ### Files that are put down -/

/-- A file was put down where no directory was. Besides, at most directories were made at some places. -/
structure Puts (places : Location → Prop) (files files' : Files) (loc : Location) (content : ByteArray)
    (mode : Nat) : Prop where
  workDir : files'.workDir = files.workDir
  vacant : files.lookup loc ≠ some .directory
  written : files'.lookup loc = some (.file content mode)
  elsewhere : ∀ l, l ≠ loc → files'.lookup l = files.lookup l ∨
    files.lookup l = none ∧ files'.lookup l = some .directory ∧ places l

namespace Puts

variable {content : ByteArray} {mode : Nat}

/-- A file is written behind directories that were made for it. -/
theorem insert (hWork : made.workDir = files.workDir) (hWay : GrowsAt places files made)
    (hNode : made.lookup loc ≠ some .directory) :
    Puts places files (made.insert loc (.file content mode)) loc content mode where
  workDir := hWork
  vacant hThere := hNode (hWay.keeps hThere)
  written := by rw [lookup_insert _ _ (ne_root_of_lookup hNode), if_pos rfl]
  elsewhere l hNe := by
    rw [lookup_insert_of_ne _ _ hNe]
    exact hWay l

variable (h : Puts places files files' loc content mode)

include h

theorem mono (hPlaces : ∀ l, places l → others l) : Puts others files files' loc content mode :=
  { h with
    elsewhere := fun l hNe =>
      (h.elsewhere l hNe).imp_right fun ⟨hNone, hMade, hPlace⟩ => ⟨hNone, hMade, hPlaces l hPlace⟩ }

theorem directory (hDir : files.lookup l = some .directory) : files'.lookup l = some .directory := by
  have hNe : l ≠ loc := by
    rintro rfl
    exact h.vacant hDir
  rcases h.elsewhere l hNe with hSame | ⟨hNone, -⟩
  · rw [hSame, hDir]
  · rw [hNone] at hDir
    cases hDir

/-- A path that resolved before a write resolves to the same location. -/
theorem resolve (hPath : files.resolve path = .ok last) : files'.resolve path = .ok last :=
  resolve_of_directories h.workDir (fun _ => h.directory) hPath

/-- A write elsewhere leaves the bytes of a file. -/
theorem file_iff (hNe : l ≠ loc) {bytes : ByteArray} :
    (∃ mode, files'.lookup l = some (.file bytes mode)) ↔ ∃ mode, files.lookup l = some (.file bytes mode) := by
  rcases h.elsewhere l hNe with hSame | ⟨hNone, hMade, -⟩
  · rw [hSame]
  · simp [hNone, hMade]

end Puts

end Files

end VaultSync
