import VaultSync.Proofs.Files.Entries
import VaultSync.Proofs.Text.Split

/-! Walking along written paths. A walk only asks which locations are directories, so it ends at the same
location as long as no directory on its way goes, and making the directories along it is the walk itself
up to the first one that is missing. -/
namespace VaultSync

/-- Of a chain of steps that succeeded each step did. -/
theorem bind_eq_ok {ε α β : Type} {x : Except ε α} {f : α → Except ε β} {b : β} :
    (x >>= f) = .ok b ↔ ∃ a, x = .ok a ∧ f a = .ok b := by
  cases x <;> simp [bind, Except.bind]

/-- Joining only puts parts in front of those of a path. -/
theorem Path.splitOnChar_join (base path : String) :
    ∃ front, Text.splitOnChar '/' (join base path) = front ++ Text.splitOnChar '/' path := by
  rw [join]
  split
  · exact ⟨[], rfl⟩
  · split
    · rename_i hSlash
      obtain ⟨chars, hBase⟩ := List.getLast?_eq_some_iff.1 hSlash
      have hJoined : base ++ path = String.ofList chars ++ "/" ++ path := by
        rw [← String.toList_inj]
        simp [hBase]
      exact ⟨_, by rw [hJoined, Text.splitOnChar_slash]⟩
    · exact ⟨_, Text.splitOnChar_slash base path⟩

namespace Files

/-- A part of a path that names an entry. -/
def IsName (part : String) : Prop :=
  part ≠ "" ∧ part ≠ "." ∧ part ≠ ".."

/-- Where one part of a path leads to. -/
def next (loc : Location) (part : String) : Location :=
  if part = "" ∨ part = "." then loc else if part = ".." then loc.dropLast else loc ++ [part]

theorem next_name {part : String} (h : IsName part) (loc : Location) : next loc part = loc ++ [part] := by
  rw [next, if_neg (by simp [h.1, h.2.1]), if_neg h.2.2]

variable {files files' : Files} {loc last : Location} {part : String} {parts more : List String}

theorem enter_eq_ok : files.enter loc = .ok () ↔ files.lookup loc = some .directory := by
  unfold enter
  split <;> simp_all

theorem checkName_eq_ok : checkName part = .ok () ↔ part.utf8ByteSize ≤ maxNameBytes := by
  simp [checkName]

/-- A walk goes through directories only, and over names that are not too long. -/
theorem walk_cons_eq_ok : files.walk loc (part :: parts) = .ok last ↔
    files.lookup loc = some .directory ∧ (IsName part → part.utf8ByteSize ≤ maxNameBytes) ∧
      files.walk (next loc part) parts = .ok last := by
  rw [walk, ← enter_eq_ok]
  cases files.enter loc with
  | error e => simp [bind, Except.bind]
  | ok =>
      by_cases hHere : part = "" ∨ part = "."
      · have hName : ¬ IsName part := fun h => hHere.elim h.1 h.2.1
        simp [bind, Except.bind, next, hHere, hName]
      · by_cases hUp : part = ".."
        · subst hUp
          have hName : ¬ IsName ".." := fun h => h.2.2 rfl
          simp [bind, Except.bind, next, hName]
        · have hName : IsName part := ⟨fun h => hHere (.inl h), fun h => hHere (.inr h), hUp⟩
          simp only [bind, Except.bind, hHere, hUp, if_false, next, hName, true_implies, true_and,
            ← checkName_eq_ok]
          cases checkName part <;> simp

/-- A walk over two lists of parts is one walk after the other. -/
theorem walk_append_eq_ok : files.walk loc (parts ++ more) = .ok last ↔
    ∃ middle, files.walk loc parts = .ok middle ∧ files.walk middle more = .ok last := by
  induction parts generalizing loc with
  | nil => simp [walk]
  | cons part parts ih => simp [walk_cons_eq_ok, ih, and_assoc]

/-- A walk ends at the same location where all that was a directory still is one. -/
theorem walk_of_directories
    (hDirs : ∀ l, files.lookup l = some .directory → files'.lookup l = some .directory)
    (h : files.walk loc parts = .ok last) : files'.walk loc parts = .ok last := by
  induction parts generalizing loc with
  | nil => exact h
  | cons part parts ih =>
      obtain ⟨hEnter, hName, hRest⟩ := walk_cons_eq_ok.1 h
      exact walk_cons_eq_ok.2 ⟨hDirs loc hEnter, hName, ih hRest⟩

/-- A walk that ends at a directory started at one. -/
theorem lookup_start_of_walk (h : files.walk loc parts = .ok last)
    (hLast : files.lookup last = some .directory) : files.lookup loc = some .directory := by
  cases parts with
  | nil =>
      obtain rfl : loc = last := by simpa [walk] using h
      exact hLast
  | cons part parts => exact (walk_cons_eq_ok.1 h).1

/-- A directory that is there is passed, not made. -/
theorem makeAlong_cons (h : files.lookup (next loc part) = some .directory) :
    files.makeAlong loc (part :: parts) = files.makeAlong (next loc part) parts := by
  rw [makeAlong]
  by_cases hHere : part = "" ∨ part = "."
  · simp [next, hHere]
  · by_cases hUp : part = ".."
    · simp [next, hUp]
    · simp only [next, hHere, hUp, if_false] at h ⊢
      rw [h]

/-- Where a walk leads into a directory nothing has to be made for its part of a path. -/
theorem makeAlong_append_of_walk (h : files.walk loc parts = .ok last)
    (hLast : files.lookup last = some .directory) :
    files.makeAlong loc (parts ++ more) = files.makeAlong last more := by
  induction parts generalizing loc with
  | nil =>
      obtain rfl : loc = last := by simpa [walk] using h
      rfl
  | cons part parts ih =>
      obtain ⟨-, -, hRest⟩ := walk_cons_eq_ok.1 h
      rw [List.cons_append, makeAlong_cons (lookup_start_of_walk hRest hLast), ih hRest]

/-- Directories along parts of a path were made without a fault if these parts lead to a directory then. -/
theorem makeAlong_of_walk {reply : Except FileError Unit} (hMade : files.makeAlong loc parts = (reply, files'))
    (h : files'.walk loc parts = .ok last) (hLast : files'.lookup last = some .directory) : reply = .ok () := by
  induction parts generalizing files loc with
  | nil => exact (Prod.ext_iff.1 hMade).1.symm
  | cons part parts ih =>
      obtain ⟨-, -, hRest⟩ := walk_cons_eq_ok.1 h
      have hThere := lookup_start_of_walk hRest hLast
      rw [makeAlong] at hMade
      rw [next] at hRest hThere
      split at hMade
      · rw [if_pos ‹_›] at hRest
        exact ih hMade hRest
      · rw [if_neg ‹_›] at hRest hThere
        split at hMade
        · rw [if_pos ‹_›] at hRest
          exact ih hMade hRest
        · rw [if_neg ‹_›] at hRest hThere
          split at hMade
          · exact ih hMade hRest
          -- What is in the way of a directory is in its place afterwards too.
          · rename_i hFile
            cases hMade
            rw [hFile] at hThere
            cases hThere
          · rename_i hMissing
            split at hMade
            · cases hMade
              rw [hMissing] at hThere
              cases hThere
            · exact ih hMade hRest

/-- A name that is missing in a directory is made there. -/
theorem makeAlong_missing (hName : IsName part) (hSize : part.utf8ByteSize ≤ maxNameBytes)
    (hMissing : files.lookup (loc ++ [part]) = none) :
    files.makeAlong loc [part] = (.ok (), files.insert (loc ++ [part]) .directory) := by
  rw [makeAlong, if_neg (by simp [hName.1, hName.2.1]), if_neg hName.2.2, hMissing]
  simp [checkName, Nat.not_lt.2 hSize, makeAlong]

/-! ### Paths -/

/-- A path resolves when it is a possible path and the walk goes through. -/
theorem resolve_eq_ok {path : String} : files.resolve path = .ok loc ↔
    '\x00' ∉ path.toList ∧ path ≠ "" ∧ path.utf8ByteSize ≤ maxPathBytes ∧
      files.walk (files.start path) (Text.splitOnChar '/' path) = .ok loc := by
  rw [resolve]
  by_cases hNul : '\x00' ∈ path.toList
  · simp [hNul]
  · by_cases hEmpty : path = ""
    · simp [hEmpty]
    · by_cases hLong : maxPathBytes < path.utf8ByteSize
      · simp [hNul, hEmpty, hLong, Nat.not_le.2 hLong]
      · simp [hNul, hEmpty, hLong, Nat.not_lt.1 hLong]

/-- A path names the same location as long as no directory goes. -/
theorem resolve_of_directories {path : String} (hWork : files'.workDir = files.workDir)
    (hDirs : ∀ l, files.lookup l = some .directory → files'.lookup l = some .directory)
    (h : files.resolve path = .ok loc) : files'.resolve path = .ok loc := by
  obtain ⟨hNul, hEmpty, hLong, hWalk⟩ := resolve_eq_ok.1 h
  have hStart : files'.start path = files.start path := by rw [start, start, hWork]
  exact resolve_eq_ok.2 ⟨hNul, hEmpty, hLong, hStart ▸ walk_of_directories hDirs hWalk⟩

/-- Putting a node where no directory was changes no path. -/
theorem resolve_insert {path : String} {other : Location} {node : Node}
    (hNode : files.lookup other ≠ some .directory) (h : files.resolve path = .ok loc) :
    (files.insert other node).resolve path = .ok loc := by
  have hWork : (files.insert other node).workDir = files.workDir := rfl
  exact resolve_of_directories hWork (fun _ => lookup_insert_directory _ _ hNode) h

/-- Taking away what was no directory changes no path. -/
theorem resolve_erase {path : String} {other : Location} (hRoot : other ≠ [])
    (hNode : files.lookup other ≠ some .directory) (h : files.resolve path = .ok loc) :
    (files.erase other).resolve path = .ok loc := by
  have hWork : (files.erase other).workDir = files.workDir := rfl
  refine resolve_of_directories hWork (fun l hDir => ?_) h
  have hOther : l ≠ other := by
    rintro rfl
    exact hNode hDir
  rw [lookup_erase _ hRoot, if_neg hOther, hDir]

/-- What is known about a path that resolves is what lies there. -/
theorem stat_of_resolve {path : String} (h : files.resolve path = .ok loc) :
    files.stat path = (files.lookup loc).elim (.error .notFound) .ok := by
  rw [stat, h]
  cases hNode : files.lookup loc <;> simp [bind, Except.bind, hNode]

/-- A directory was made without a fault if it is there then. -/
theorem createDirAll_of_resolve {path : String} {reply : Except FileError Unit}
    (hMade : files.createDirAll path = (reply, files')) (hWork : files'.workDir = files.workDir)
    (h : files'.resolve path = .ok loc) (hDir : files'.lookup loc = some .directory) : reply = .ok () := by
  obtain ⟨hNul, -, hLong, hWalk⟩ := resolve_eq_ok.1 h
  rw [createDirAll, if_neg (by simpa using hNul), if_neg (Nat.not_lt.2 hLong)] at hMade
  have hStart : files'.start path = files.start path := by rw [start, start, hWork]
  rw [hStart] at hWalk
  exact makeAlong_of_walk hMade hWalk hDir

/-- A directory that is there is not made again. -/
theorem createDirAll_made {path : String} (h : files.resolve path = .ok loc)
    (hMade : files.lookup loc = some .directory) : files.createDirAll path = (.ok (), files) := by
  obtain ⟨hNul, -, hLong, hWalk⟩ := resolve_eq_ok.1 h
  have hAlong : files.makeAlong (files.start path) (Text.splitOnChar '/' path) = (.ok (), files) := by
    rw [← List.append_nil (Text.splitOnChar '/' path), makeAlong_append_of_walk hWalk hMade, makeAlong]
  rw [createDirAll, hAlong]
  simp [hNul, Nat.not_lt.2 hLong]

/-- A missing directory is made when the path to it is there. -/
theorem createDirAll_missing {path : String} (h : files.resolve path = .ok loc)
    (hParts : Text.splitOnChar '/' path = parts ++ [part]) (hName : IsName part)
    (hMissing : files.lookup loc = none) :
    files.createDirAll path = (.ok (), files.insert loc .directory) := by
  obtain ⟨hNul, -, hLong, hWalk⟩ := resolve_eq_ok.1 h
  rw [hParts] at hWalk
  obtain ⟨parent, hParent, hLast⟩ := walk_append_eq_ok.1 hWalk
  obtain ⟨hEnter, hSize, hEnd⟩ := walk_cons_eq_ok.1 hLast
  obtain rfl : parent ++ [part] = loc := by simpa [walk, next_name hName] using hEnd
  rw [createDirAll, hParts, makeAlong_append_of_walk hParent hEnter,
    makeAlong_missing hName (hSize hName) hMissing]
  simp [hNul, Nat.not_lt.2 hLong]

end Files

end VaultSync
