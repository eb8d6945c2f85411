import VaultSync.Proofs.Files.Walk

/-! Trees of directories. Every entry of a file system lies in a directory, and each operation keeps it
so. Making directories adds directories where nothing was and changes nothing else. -/
namespace VaultSync.Files

/-- Each entry lies at one place, in a directory, and the working directory is one. -/
structure WellFormed (files : Files) : Prop where
  distinct : (files.entries.map (·.1)).Nodup
  rooted : ∀ e ∈ files.entries, e.1 ≠ []
  parents : ∀ e ∈ files.entries, files.lookup e.1.dropLast = some .directory
  workDir : files.lookup files.workDir = some .directory

/-- A key that stands once is looked up to what it stands with. -/
theorem lookup_of_mem {α β : Type} [BEq α] [LawfulBEq α] {entries : List (α × β)} {key : α} {entry : β}
    (hOnce : (entries.map (·.1)).Nodup) (h : (key, entry) ∈ entries) : entries.lookup key = some entry := by
  obtain ⟨front, back, rfl⟩ := List.append_of_mem h
  refine List.lookup_eq_some_iff.2 ⟨front, back, rfl, fun e he => ?_⟩
  rw [List.map_append, List.nodup_append] at hOnce
  have hNe := hOnce.2.2 e.1 (List.mem_map_of_mem he) key (by simp)
  exact bne_iff_ne.2 hNe.symm

variable {files files' : Files} {loc other last : Location} {node : Node} {path : String}
  {parts : List String}

/-! ### Well-formed trees -/

namespace WellFormed

/-- In a well-formed tree a look-up and membership agree. -/
theorem lookup_eq_some_iff (h : files.WellFormed) (hRoot : loc ≠ []) :
    files.lookup loc = some node ↔ (loc, node) ∈ files.entries := by
  rw [lookup_of_ne_root hRoot]
  constructor
  · intro hLookup
    obtain ⟨front, back, hEntries, -⟩ := List.lookup_eq_some_iff.1 hLookup
    simp [hEntries]
  · exact lookup_of_mem h.distinct

/-- What is there lies in a directory. -/
theorem parent (h : files.WellFormed) (hNode : files.lookup loc = some node) :
    files.lookup loc.dropLast = some .directory := by
  by_cases hRoot : loc = []
  · subst hRoot
    rfl
  · exact h.parents _ ((h.lookup_eq_some_iff hRoot).1 hNode)

/-- The children of a directory are what is found one name below it. -/
theorem mem_children_iff (h : files.WellFormed) {name : String} :
    (name, node) ∈ files.children loc ↔ files.lookup (loc ++ [name]) = some node := by
  rw [children_eq, List.mem_filterMap, h.lookup_eq_some_iff (by simp)]
  simp only [child?_eq_some]
  exact ⟨fun ⟨e, hMem, hEntry⟩ => hEntry ▸ hMem, fun hMem => ⟨_, hMem, rfl⟩⟩

/-- A directory has every name once. -/
theorem nodup_children (h : files.WellFormed) (loc : Location) :
    ((files.children loc).map (·.1)).Nodup := by
  have hOnce := h.distinct
  rw [children_eq]
  rw [List.Nodup, List.pairwise_map] at hOnce ⊢
  refine hOnce.filterMap _ fun e e' hNe child hChild child' hChild' hName => hNe ?_
  rw [child?_eq_some.1 hChild, child?_eq_some.1 hChild', hName]

/-- A node may be put into a directory, unless it is a file in place of a directory. -/
theorem insert (h : files.WellFormed) (hRoot : loc ≠ [])
    (hParent : files.lookup loc.dropLast = some .directory)
    (hNode : files.lookup loc = some .directory → node = .directory) :
    (files.insert loc node).WellFormed := by
  -- only a directory may take the place of a directory, so none is lost
  have hDirs : ∀ l, files.lookup l = some .directory →
      (files.insert loc node).lookup l = some .directory := by
    intro l hDir
    rw [lookup_insert _ _ hRoot]
    split
    · rename_i hLoc
      rw [hNode (hLoc ▸ hDir)]
    · exact hDir
  refine ⟨?_, ?_, ?_, hDirs _ h.workDir⟩
  · rw [Files.insert, List.map_append, List.nodup_append]
    refine ⟨h.distinct.sublist (List.filter_sublist.map _), by simp, ?_⟩
    intro l hl l' hl'
    obtain ⟨e, he, rfl⟩ := List.mem_map.1 hl
    rw [List.map_singleton, List.mem_singleton] at hl'
    simpa [hl'] using (List.mem_filter.1 he).2
  · intro e he
    rcases List.mem_append.1 he with he | he
    · exact h.rooted e (List.mem_filter.1 he).1
    · rwa [List.mem_singleton.1 he]
  · intro e he
    rcases List.mem_append.1 he with he | he
    · exact hDirs _ (h.parents e (List.mem_filter.1 he).1)
    · rw [List.mem_singleton.1 he]
      exact hDirs _ hParent

/-- A file may be taken away. -/
theorem erase (h : files.WellFormed) (hRoot : loc ≠ []) (hNode : files.lookup loc ≠ some .directory) :
    (files.erase loc).WellFormed := by
  have hDirs : ∀ l, files.lookup l = some .directory →
      (files.erase loc).lookup l = some .directory := by
    intro l hDir
    rw [lookup_erase _ hRoot, if_neg fun hLoc : l = loc => hNode (hLoc ▸ hDir), hDir]
  exact
    { distinct := h.distinct.sublist (List.filter_sublist.map _)
      rooted := fun e he => h.rooted e (List.mem_filter.1 he).1
      parents := fun e he => hDirs _ (h.parents e (List.mem_filter.1 he).1)
      workDir := hDirs _ h.workDir }

end WellFormed

/-! ### The order of directories -/

/-- The same files, with their directories in another order. -/
def Reordered (files files' : Files) : Prop :=
  files'.workDir = files.workDir ∧ files'.entries.Perm files.entries

namespace Reordered

/-- Another order of the entries is looked up the same. -/
theorem lookup_eq (hTree : files.WellFormed) (h : Reordered files files') (loc : Location) :
    files'.lookup loc = files.lookup loc := by
  have hOnce : (files'.entries.map (·.1)).Nodup := (h.2.map (·.1)).nodup_iff.2 hTree.distinct
  by_cases hRoot : loc = []
  · subst hRoot
    rfl
  · refine Option.ext fun node => ?_
    rw [hTree.lookup_eq_some_iff hRoot, lookup_of_ne_root hRoot, ← h.2.mem_iff]
    constructor
    · intro hLookup
      obtain ⟨front, back, hEntries, -⟩ := List.lookup_eq_some_iff.1 hLookup
      simp [hEntries]
    · exact lookup_of_mem hOnce

theorem wellFormed (hTree : files.WellFormed) (h : Reordered files files') : files'.WellFormed where
  distinct := (h.2.map (·.1)).nodup_iff.2 hTree.distinct
  rooted e he := hTree.rooted e (h.2.mem_iff.1 he)
  parents e he := (h.lookup_eq hTree _).trans (hTree.parents e (h.2.mem_iff.1 he))
  workDir := by rw [h.1, h.lookup_eq hTree, hTree.workDir]

theorem symm (h : Reordered files files') : Reordered files' files :=
  ⟨h.1.symm, h.2.symm⟩

/-- Paths resolve the same in another order of the entries. -/
theorem resolve (hTree : files.WellFormed) (h : Reordered files files') (hPath : files.resolve path = .ok loc) :
    files'.resolve path = .ok loc :=
  resolve_of_directories h.1 (fun l hDir => (h.lookup_eq hTree l).trans hDir) hPath

/-- A directory lists the same entries, in another order. -/
theorem children (h : Reordered files files') (loc : Location) : (files'.children loc).Perm (files.children loc) :=
  h.2.filterMap _

end Reordered

/-! ### Making directories -/

/-- Directories were made where nothing was, and nothing else changed. -/
structure Grows (files files' : Files) : Prop where
  workDir : files'.workDir = files.workDir
  lookup : ∀ loc, files'.lookup loc = files.lookup loc ∨
    files.lookup loc = none ∧ files'.lookup loc = some .directory

namespace Grows

theorem refl (files : Files) : Grows files files :=
  ⟨rfl, fun _ => .inl rfl⟩

theorem trans {files'' : Files} (h : Grows files files') (h' : Grows files' files'') :
    Grows files files'' := by
  refine ⟨h'.workDir.trans h.workDir, fun loc => ?_⟩
  rcases h'.lookup loc with hSame | ⟨hNone, hMade⟩
  · rw [hSame]
    exact h.lookup loc
  · rcases h.lookup loc with hSame | ⟨-, hMade'⟩
    · exact .inr ⟨hSame ▸ hNone, hMade⟩
    · rw [hNone] at hMade'
      cases hMade'

/-- What was there is still there. -/
theorem keeps (h : Grows files files') (hNode : files.lookup loc = some node) :
    files'.lookup loc = some node := by
  rcases h.lookup loc with hSame | ⟨hNone, -⟩
  · rw [hSame, hNode]
  · rw [hNone] at hNode
    cases hNode

theorem file_iff (h : Grows files files') {content : ByteArray} {mode : Nat} :
    files'.lookup loc = some (.file content mode) ↔ files.lookup loc = some (.file content mode) := by
  refine ⟨fun hFile => ?_, h.keeps⟩
  rcases h.lookup loc with hSame | ⟨-, hMade⟩
  · rw [← hSame, hFile]
  · rw [hMade] at hFile
    cases hFile

/-- A path that resolved resolves to the same location after growth. -/
theorem resolve (h : Grows files files') (hPath : files.resolve path = .ok loc) :
    files'.resolve path = .ok loc :=
  resolve_of_directories h.workDir (fun _ => h.keeps) hPath

end Grows

/-- Making the directories on a way keeps a tree well formed and only grows it. -/
theorem makeAlong_grows (hTree : files.WellFormed) (hLoc : files.lookup loc = some .directory) :
    (files.makeAlong loc parts).2.WellFormed ∧ Grows files (files.makeAlong loc parts).2 := by
  induction parts generalizing files loc with
  | nil => exact ⟨hTree, .refl files⟩
  | cons part parts ih =>
      rw [makeAlong]
      split
      · exact ih hTree hLoc
      · split
        · exact ih hTree (hTree.parent hLoc)
        · split
          · rename_i hThere
            exact ih hTree hThere
          · exact ⟨hTree, .refl files⟩
          · rename_i hMissing
            split
            · exact ⟨hTree, .refl files⟩
            · have hRoot : loc ++ [part] ≠ [] := by simp
              have hMade : (files.insert (loc ++ [part]) .directory).lookup (loc ++ [part]) =
                  some .directory := by rw [lookup_insert _ _ hRoot, if_pos rfl]
              have hStep : Grows files (files.insert (loc ++ [part]) .directory) := by
                refine ⟨rfl, fun l => ?_⟩
                rw [lookup_insert _ _ hRoot]
                split
                · rename_i hLast
                  exact .inr ⟨hLast ▸ hMissing, rfl⟩
                · exact .inl rfl
              have hTree' : (files.insert (loc ++ [part]) .directory).WellFormed :=
                hTree.insert hRoot (by simpa using hLoc) fun _ => rfl
              exact ⟨(ih hTree' hMade).1, hStep.trans (ih hTree' hMade).2⟩

/-- A path starts at a directory. -/
theorem lookup_start (hTree : files.WellFormed) (path : String) :
    files.lookup (files.start path) = some .directory := by
  rw [start]
  split
  · rfl
  · exact hTree.workDir

/-- Making a directory, with success or without, only adds directories. -/
theorem createDirAll_grows (hTree : files.WellFormed) (path : String) :
    (files.createDirAll path).2.WellFormed ∧ Grows files (files.createDirAll path).2 := by
  rw [createDirAll]
  split
  · exact ⟨hTree, .refl files⟩
  · split
    · exact ⟨hTree, .refl files⟩
    · exact makeAlong_grows hTree (lookup_start hTree path)

/-- Making the parents of a path keeps a tree well formed and only grows it. -/
theorem createParents_grows (hTree : files.WellFormed) (path : String) :
    (files.createParents path).2.WellFormed ∧ Grows files (files.createParents path).2 := by
  rw [createParents]
  split
  · exact createDirAll_grows hTree _
  · exact ⟨hTree, .refl files⟩

/-! ### Where a path leads -/

/-- The location that a written path leads to when all directories on its way are there. -/
def destination (files : Files) (path : String) : Location :=
  (Text.splitOnChar '/' path).foldl next (files.start path)

/-- A walk that goes through ends where its parts lead. -/
theorem foldl_next_of_walk (h : files.walk loc parts = .ok last) : parts.foldl next loc = last := by
  induction parts generalizing loc with
  | nil => simpa [walk] using h
  | cons part parts ih => exact ih (walk_cons_eq_ok.1 h).2.2

/-- A path that resolves leads to its destination. -/
theorem destination_of_resolve (h : files.resolve path = .ok loc) : files.destination path = loc :=
  foldl_next_of_walk (resolve_eq_ok.1 h).2.2.2

/-- Where a path leads depends on the working directory alone. -/
theorem destination_congr (hWork : files'.workDir = files.workDir) (path : String) :
    files'.destination path = files.destination path := by
  rw [destination, destination, start, start, hWork]

theorem destination_insert (path : String) :
    (files.insert loc node).destination path = files.destination path := rfl

theorem destination_erase (path : String) :
    (files.erase loc).destination path = files.destination path := rfl

/-- What a walk ends at has a directory above it. -/
theorem walk_parent (hTree : files.WellFormed) (hLoc : files.lookup loc.dropLast = some .directory)
    (h : files.walk loc parts = .ok last) : files.lookup last.dropLast = some .directory := by
  induction parts generalizing loc with
  | nil =>
      obtain rfl : loc = last := by simpa [walk] using h
      exact hLoc
  | cons part parts ih =>
      obtain ⟨hEnter, -, hRest⟩ := walk_cons_eq_ok.1 h
      refine ih ?_ hRest
      rw [next]
      split
      · exact hLoc
      · split
        · exact hTree.parent (hTree.parent hEnter)
        · simpa using hEnter

/-- A path that can be followed ends in a directory, whether or not anything lies there. -/
theorem resolve_parent (hTree : files.WellFormed) (h : files.resolve path = .ok loc) :
    files.lookup loc.dropLast = some .directory :=
  walk_parent hTree (hTree.parent (lookup_start hTree path)) (resolve_eq_ok.1 h).2.2.2

/-- A path with a name at its end leads to an entry of a directory that is there. -/
theorem resolve_name {front : List String} {name : String} (hName : IsName name)
    (hParts : Text.splitOnChar '/' path = front ++ [name]) (h : files.resolve path = .ok loc) :
    ∃ parent, files.walk (files.start path) front = .ok parent ∧
      files.lookup parent = some .directory ∧ loc = parent ++ [name] := by
  obtain ⟨-, -, -, hWalk⟩ := resolve_eq_ok.1 h
  rw [hParts] at hWalk
  obtain ⟨parent, hFront, hLast⟩ := walk_append_eq_ok.1 hWalk
  obtain ⟨hEnter, -, hEnd⟩ := walk_cons_eq_ok.1 hLast
  rw [next_name hName, walk, Except.ok.injEq] at hEnd
  exact ⟨parent, hFront, hEnter, hEnd.symm⟩

/-! ### Writing and removing files -/

theorem ne_root_of_lookup (h : files.lookup loc ≠ some .directory) : loc ≠ [] := by
  rintro rfl
  exact h rfl

/-- A write that succeeds puts a file where its path resolves, over no directory. -/
theorem write_eq_ok {content : ByteArray} (h : files.write path content = .ok files') :
    ∃ loc mode, files.resolve path = .ok loc ∧ files.lookup loc ≠ some .directory ∧
      files' = files.insert loc (.file content mode) := by
  obtain ⟨loc, hPath, h⟩ := bind_eq_ok.1 h
  split at h
  · cases h
  · rename_i content' mode hNode
    exact ⟨loc, mode, hPath, by simp [hNode], (Except.ok.inj h).symm⟩
  · rename_i hNode
    split at h
    · cases h
    · exact ⟨loc, defaultMode, hPath, by simp [hNode], (Except.ok.inj h).symm⟩

/-- A replacement that succeeds puts a file where its path resolves, over no directory. -/
theorem replace_eq_ok {content : ByteArray} {mode : Nat}
    (h : files.replace path content mode = .ok files') :
    ∃ loc, files.resolve path = .ok loc ∧ files.lookup loc ≠ some .directory ∧
      files' = files.insert loc (.file content mode) := by
  obtain ⟨loc, hPath, h⟩ := bind_eq_ok.1 h
  split at h
  · cases h
  · rename_i hNode
    exact ⟨loc, hPath, hNode, (Except.ok.inj h).symm⟩

/-- A removal that succeeds erases one file. -/
theorem removeFile_eq_ok (h : files.removeFile path = .ok files') :
    ∃ loc, files.resolve path = .ok loc ∧ files.lookup loc ≠ some .directory ∧
      files' = files.erase loc := by
  obtain ⟨loc, hPath, h⟩ := bind_eq_ok.1 h
  split at h
  · cases h
  · rename_i hNode
    exact ⟨loc, hPath, by simp [hNode], (Except.ok.inj h).symm⟩
  · cases h

/-- A directory that is removed goes with all that lies below it. -/
theorem removeDirAll_eq_ok (h : files.removeDirAll path = .ok files') :
    ∃ loc, files.resolve path = .ok loc ∧ files.lookup loc = some .directory ∧
      files' = files.removeBelow loc := by
  obtain ⟨loc, hPath, h⟩ := bind_eq_ok.1 h
  split at h
  · rename_i hNode
    exact ⟨loc, hPath, hNode, (Except.ok.inj h).symm⟩
  · cases h
  · cases h

/-- A path exists when it resolves to something. -/
theorem has_eq_true_iff :
    files.has path = true ↔ ∃ loc node, files.resolve path = .ok loc ∧ files.lookup loc = some node := by
  rw [has]
  cases hPath : files.resolve path with
  | error e => simp [stat, hPath, bind, Except.bind, Except.isOk, Except.toBool]
  | ok loc =>
      rw [stat_of_resolve hPath]
      cases hNode : files.lookup loc <;> simp [hNode, Except.isOk, Except.toBool]

/-- A path is a directory when it resolves to one. -/
theorem isDirectory_eq_true_iff : files.isDirectory path = true ↔
    ∃ loc, files.resolve path = .ok loc ∧ files.lookup loc = some .directory := by
  rw [isDirectory]
  cases hPath : files.resolve path with
  | error e => simp [stat, hPath, bind, Except.bind]
  | ok loc =>
      rw [stat_of_resolve hPath]
      cases hNode : files.lookup loc with
      | none => simp [hNode]
      | some node => cases node <;> simp [hNode]

/-- A path is a file when it resolves to one. -/
theorem isFile_eq_true_iff : files.isFile path = true ↔
    ∃ loc content mode, files.resolve path = .ok loc ∧ files.lookup loc = some (.file content mode) := by
  rw [isFile]
  cases hPath : files.resolve path with
  | error e => simp [stat, hPath, bind, Except.bind]
  | ok loc =>
      rw [stat_of_resolve hPath]
      cases hNode : files.lookup loc with
      | none => simp [hNode]
      | some node => cases node <;> simp [hNode]

/-- What is a file already can be written. -/
theorem exists_write_of_isFile (h : files.isFile path = true) (content : ByteArray) :
    ∃ files', files.write path content = .ok files' := by
  obtain ⟨loc, old, mode, hPath, hFile⟩ := isFile_eq_true_iff.1 h
  exact ⟨files.insert loc (.file content mode), by simp [write, hPath, hFile, bind, Except.bind]⟩

/-- A file may be put where a path leads. -/
theorem WellFormed.insert_file (hTree : files.WellFormed) (h : files.resolve path = .ok loc)
    (hNode : files.lookup loc ≠ some .directory) (content : ByteArray) (mode : Nat) :
    (files.insert loc (.file content mode)).WellFormed :=
  hTree.insert (ne_root_of_lookup hNode) (resolve_parent hTree h) fun hDir => absurd hDir hNode

end VaultSync.Files
