import VaultSync.Git.Host
import VaultSync.Proofs.Files.Made
import VaultSync.Proofs.Git.Tree

/-! What is read of a repository from the files that it lies in. A tree has at each path the file that lies there,
so a file that is put down shows in the trees of the directories above it, and nowhere else. -/
namespace VaultSync.Git.Host

open Files

variable {files files' : Files} {loc dir entry : Location} {places : Location → Prop} {path : TreePath}
  {content : ByteArray} {mode : Nat} {wanted : TreePath → Bool} {root name : String} {host : Host}
  {repo full : Repository} {c : Checkout}

/-! ### Files below a location -/

/-- The files that a tree is made of. -/
def found (files : Files) (loc : Location) (wanted : TreePath → Bool) : List (TreePath × ByteArray) :=
  (files.below loc).filterMap fun e =>
    match e.2 with
    | .file content _ => if wanted e.1 then some (e.1, content) else none
    | .directory => none

theorem filesBelow_eq (files : Files) (loc : Location) (wanted : TreePath → Bool) : filesBelow files loc wanted =
    Tree.tabulate ((found files loc wanted).map (·.1)) fun p => (found files loc wanted).lookup p := rfl

/-- What is read below a directory is what lies in the files behind it. -/
theorem mem_below_iff {node : Node} :
    (path, node) ∈ files.below loc ↔ path ≠ [] ∧ (loc ++ path, node) ∈ files.entries := by
  simp only [below, List.mem_map, List.mem_filter, Bool.and_eq_true, List.isPrefixOf_iff_prefix,
    decide_eq_true_eq, Prod.mk.injEq]
  constructor
  · rintro ⟨⟨l, node⟩, ⟨hMem, ⟨rest, rfl⟩, hNe⟩, hPath, rfl⟩
    rw [List.drop_left] at hPath
    subst hPath
    exact ⟨by simpa using hNe, hMem⟩
  · rintro ⟨hSome, hMem⟩
    exact ⟨_, ⟨hMem, List.prefix_append _ _, by simpa using hSome⟩, List.drop_left, rfl⟩

/-- What a work tree is read from is the wanted files below its location. -/
theorem mem_found_iff : (path, content) ∈ found files loc wanted ↔
    path ≠ [] ∧ wanted path = true ∧ ∃ mode, (loc ++ path, .file content mode) ∈ files.entries := by
  rw [found, List.mem_filterMap]
  constructor
  · rintro ⟨⟨p, node⟩, hMem, hNode⟩
    cases node with
    | directory => cases hNode
    | file bytes mode =>
        dsimp only at hNode
        split at hNode
        · rename_i hWanted
          obtain ⟨rfl, rfl⟩ := Prod.mk.inj (Option.some.inj hNode)
          obtain ⟨hSome, hEntry⟩ := mem_below_iff.1 hMem
          exact ⟨hSome, hWanted, mode, hEntry⟩
        · cases hNode
  · rintro ⟨hSome, hWanted, mode, hEntry⟩
    exact ⟨_, mem_below_iff.2 ⟨hSome, hEntry⟩, by simp [hWanted]⟩

/-- A tree has at each path that is wanted the file that lies there. -/
theorem get?_filesBelow (hTree : files.WellFormed) : (filesBelow files loc wanted).get? path = some content ↔
    path ≠ [] ∧ wanted path = true ∧ ∃ mode, files.lookup (loc ++ path) = some (.file content mode) := by
  have hMem {bytes : ByteArray} : (path, bytes) ∈ found files loc wanted ↔
      path ≠ [] ∧ wanted path = true ∧ ∃ mode, files.lookup (loc ++ path) = some (.file bytes mode) := by
    rw [mem_found_iff]
    refine and_congr_right fun hSome => and_congr_right fun _ => exists_congr fun mode => ?_
    rw [hTree.lookup_eq_some_iff (by simp [hSome])]
  have hFound {bytes : ByteArray} (h : (found files loc wanted).lookup path = some bytes) :
      (path, bytes) ∈ found files loc wanted := by
    obtain ⟨front, back, hParts, -⟩ := List.lookup_eq_some_iff.1 h
    rw [hParts]
    exact List.mem_append_right _ List.mem_cons_self
  rw [filesBelow_eq, Tree.get?_tabulate, ← hMem]
  constructor
  · intro h
    split at h
    · exact hFound h
    · cases h
  · intro h
    rw [if_pos (List.mem_map_of_mem h)]
    -- a listed path is looked up as its first entry, and in a well-formed tree there is no other
    cases hLookup : (found files loc wanted).lookup path with
    | none => simpa using List.lookup_eq_none_iff.1 hLookup _ h
    | some bytes =>
        obtain ⟨-, -, mode, hThis⟩ := hMem.1 h
        obtain ⟨-, -, mode', hOther⟩ := hMem.1 (hFound hLookup)
        cases hThis.symm.trans hOther
        rfl

/-! ### A file that is put down -/

section Put

variable (h : Puts places files files' entry content mode)

include h

theorem ownText_of_puts (hNe : dir ++ [name] ≠ entry) : ownText files' dir name = ownText files dir name := by
  rw [ownText, ownText]
  rcases h.elsewhere _ hNe with hSame | ⟨hNone, hMade, -⟩
  · rw [hSame]
  · rw [hNone, hMade]

/-- A tree that the file does not lie in is as it was. -/
theorem filesBelow_of_outside (hTree : files.WellFormed) (hTree' : files'.WellFormed) (hOutside : ¬ loc <+: entry)
    (wanted : TreePath → Bool) : filesBelow files' loc wanted = filesBelow files loc wanted := by
  refine Tree.ext_get? fun path => Option.ext fun content => ?_
  have hNe : loc ++ path ≠ entry := by
    rintro rfl
    exact hOutside (List.prefix_append _ _)
  rw [get?_filesBelow hTree, get?_filesBelow hTree', h.file_iff hNe]

/-- A tree that the file lies in has it, if its path is wanted, and the rest as before. -/
theorem filesBelow_of_puts (hTree : files.WellFormed) (hTree' : files'.WellFormed) (hSome : path ≠ [])
    (hEntry : entry = loc ++ path) (wanted : TreePath → Bool) : filesBelow files' loc wanted =
      if wanted path then (filesBelow files loc wanted).put path content else filesBelow files loc wanted := by
  refine Tree.ext_get? fun p => Option.ext fun bytes => ?_
  rw [get?_filesBelow hTree']
  by_cases hPath : p = path
  · subst hPath
    rw [← hEntry, h.written]
    split
    · rename_i hWanted
      rw [Tree.get?_put, if_pos rfl]
      simp [hSome, hWanted]
    · rename_i hWanted
      rw [get?_filesBelow hTree]
      simp [hWanted]
  · have hNe : loc ++ p ≠ entry := by simpa [hEntry] using hPath
    rw [h.file_iff hNe, ← get?_filesBelow hTree]
    split
    · rw [Tree.get?_put, if_neg hPath]
    · rfl

end Put

/-! ### Open repositories -/

/-- The files of others in the directory of a repository. -/
def isStray (path : TreePath) : Bool :=
  path ≠ ["HEAD"] && path ≠ ["config"]

/-- A repository whose own files make sense is completed from them. -/
theorem complete_eq_some (h : complete files loc repo = some full) :
    full.bare = repo.bare ∧ full.strays = filesBelow files (full.directory loc) isStray ∧
      ∃ text, ownText files (full.directory loc) "HEAD" = some text := by
  rw [complete] at h
  cases hHead : ownText files (repo.directory loc) "HEAD" with
  | none => simp [hHead] at h
  | some text =>
      have hFull (head : Head) (remotes : List (String × String))
          (hRead : { repo with head, remotes, strays := filesBelow files (repo.directory loc) isStray } = full) :
          full.bare = repo.bare ∧ full.strays = filesBelow files (full.directory loc) isStray ∧
            ∃ text, ownText files (full.directory loc) "HEAD" = some text := by
        subst hRead
        exact ⟨rfl, rfl, text, hHead⟩
      simp only [hHead, Option.bind_eq_bind, Option.bind_some] at h
      split at h
      · exact hFull _ _ (Option.some.inj h)
      · split at h
        · exact hFull _ _ (Option.some.inj h)
        · obtain ⟨remotes, -, hRead⟩ := Option.bind_eq_some_iff.1 h
          exact hFull _ remotes (Option.some.inj hRead)

/-- A repository with the same texts of its own is completed to the same, but for the files of others. -/
theorem complete_congr (hHead : ownText files' (repo.directory loc) "HEAD" = ownText files (repo.directory loc) "HEAD")
    (hConfig : ownText files' (repo.directory loc) "config" = ownText files (repo.directory loc) "config") :
    complete files' loc repo = (complete files loc repo).map fun full =>
      { full with strays := filesBelow files' (repo.directory loc) isStray } := by
  simp only [complete, hHead, hConfig]
  cases ownText files (repo.directory loc) "HEAD" with
  | none => rfl
  | some headText =>
      cases ownText files (repo.directory loc) "config" with
      | none => rfl
      | some text =>
          dsimp only [Option.bind_eq_bind, Option.bind_some]
          split
          · rfl
          · cases Settings.read? text <;> rfl

/-- The repository that is kept for a location, as its files complete it. -/
def kept? (host : Host) (loc : Location) : Option Repository :=
  (host.repositories.lookup loc).bind (complete host.files loc)

/-- A location is that of a repository if one is kept for it whose own files can be read. -/
theorem repositoryAt_eq_some_iff :
    host.repositoryAt loc = some (loc, full) ↔ kept? host loc = some full := by
  have hFound (l : Location) : (do
      let repo ← host.repositories.lookup l
      let repo ← complete host.files l repo
      pure (l, repo)) = (kept? host l).map (l, ·) := by
    rw [kept?]
    cases host.repositories.lookup l with
    | none => rfl
    | some repo => cases hFull : complete host.files l repo <;> simp [hFull]
  rw [repositoryAt]
  dsimp only
  rw [hFound, hFound]
  cases kept? host loc with
  | some other => simp
  | none =>
      -- the repository that the location is the directory of lies one step higher
      refine iff_of_false (fun hAbove => ?_) (by simp)
      dsimp only [Option.map_none] at hAbove
      split at hAbove
      · rename_i hLast
        obtain ⟨other, -, hSame⟩ := Option.map_eq_some_iff.1 hAbove
        have hLoc : loc.dropLast = loc := congrArg Prod.fst hSame
        have hLength := congrArg List.length hLoc
        cases loc with
        | nil => cases hLast
        | cons => simp at hLength
      · cases hAbove

/-- A work tree is open with the repository that is kept for it and the files that lie in it. -/
theorem open?_eq_some_iff (hPath : host.files.resolve root = .ok loc) (hWork : c.bare = false) :
    host.open? root = some (loc, c) ↔
      kept? host loc = some c.toRepository ∧ c.work = filesBelow host.files loc (!·.any isOwnName) := by
  have hOf : host.repositoryOf root = host.repositoryAt loc := by
    rw [repositoryOf, hPath]
    rfl
  rw [← repositoryAt_eq_some_iff, open?, hOf]
  cases hAt : host.repositoryAt loc with
  | none => simp
  | some found =>
      obtain ⟨l, full⟩ := found
      constructor
      · intro h
        cases h
        have hBare : full.bare = false := hWork
        simp [hBare]
      · rintro ⟨hSame, hFiles⟩
        cases hSame
        simp only [Option.bind_eq_bind, Option.bind_some, hWork, Bool.false_eq_true, if_false, ← hFiles]
        rfl

/-- A repository is kept as long as its directory is there. -/
theorem lookup_withFiles {change : Files → Files} (hRepo : host.repositories.lookup loc = some repo)
    (hDir : (change host.files).lookup (repo.directory loc) = some .directory) :
    (host.withFiles change).repositories.lookup loc = some repo := by
  obtain ⟨front, back, hParts, hFront⟩ := List.lookup_eq_some_iff.1 hRepo
  rw [withFiles, hParts, List.filter_append, List.filter_cons_of_pos (by simpa using hDir)]
  exact List.lookup_eq_some_iff.2 ⟨_, _, rfl, fun e he => hFront e (List.mem_filter.1 he).1⟩

theorem strays_of_kept (hKept : kept? host loc = some full) :
    full.strays = filesBelow host.files (full.directory loc) isStray := by
  obtain ⟨repo, -, hFull⟩ := Option.bind_eq_some_iff.1 hKept
  exact (complete_eq_some hFull).2.1

/-- The directory of a repository that is kept is there. -/
theorem lookup_directory (hTree : host.files.WellFormed) (hKept : kept? host loc = some full) :
    host.files.lookup (full.directory loc) = some .directory := by
  obtain ⟨repo, -, hFull⟩ := Option.bind_eq_some_iff.1 hKept
  obtain ⟨-, -, text, hHead⟩ := complete_eq_some hFull
  rw [Host.ownText] at hHead
  split at hHead
  · rename_i hFile
    simpa using hTree.parent hFile
  · cases hHead

/-- A file that is none of those that a repository reads leaves it as it is, but for the files of others. -/
theorem kept?_of_puts (h : Puts places host.files files' entry content mode)
    (hTree : host.files.WellFormed) (hKept : kept? host loc = some full)
    (hOwn : ∀ name ∈ ["HEAD", "config"], full.directory loc ++ [name] ≠ entry) :
    kept? (host.withFiles fun _ => files') loc =
      some { full with strays := filesBelow files' (full.directory loc) isStray } := by
  have hDir := h.directory (lookup_directory hTree hKept)
  obtain ⟨repo, hRepo, hFull⟩ := Option.bind_eq_some_iff.1 hKept
  have hSame : full.directory loc = repo.directory loc := by
    rw [Repository.directory, Repository.directory, (complete_eq_some hFull).1]
  rw [hSame] at hDir hOwn ⊢
  rw [kept?, lookup_withFiles hRepo hDir, Option.bind_some]
  change complete files' loc repo = _
  rw [complete_congr (ownText_of_puts h (hOwn _ (by simp))) (ownText_of_puts h (hOwn _ (by simp))), hFull]
  rfl

end VaultSync.Git.Host
