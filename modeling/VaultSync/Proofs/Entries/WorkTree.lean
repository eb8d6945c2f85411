import VaultSync.Proofs.Entries.Frame
import VaultSync.Proofs.Entries.Insertion
import VaultSync.Proofs.Entries.Location
import VaultSync.Proofs.Files.Made
import VaultSync.Proofs.Git.Reading
import VaultSync.Proofs.Git.Record

/-! Entries of a store that is a work tree. Their files lie in the work tree and are staged with it, except for names
that lead through the directory of a repository: these are accepted like others, but no work tree has them. -/
namespace VaultSync.Entries

open Files Git Git.Host

variable {keys : KeyStore} {files files' : Files} {root name path : String} {plain : ByteArray}
  {entropy entropy' : Entropy} {loc l : Location} {host : Host} {c : Checkout}

/-! ### Names with a meaning for a repository -/

/-- The file of an entry has none of the names that end otherwise. -/
theorem leaf_ne {text : String} (h : ¬ suffix <:+ text.toList) (name : String) : leaf name ++ ".age" ≠ text := by
  rintro rfl
  rw [String.toList_append] at h
  exact h (List.suffix_append _ _)

/-- The file of an entry is never the directory of a repository itself. -/
theorem isOwnName_leaf (name : String) : isOwnName (leaf name ++ ".age") = false := by
  rw [isOwnName, Text.eqIgnoreAsciiCase, beq_eq_false_iff_ne]
  intro hSame
  have hLast := congrArg List.getLast? hSame
  rw [String.toList_append, List.map_append, List.getLast?_append] at hLast
  cases hLast

/-- Whether a name leads into a repository is told by its directories. -/
theorem any_isOwnName_names (name : String) : (names name).any isOwnName = (directories name).any isOwnName := by
  simp [names, isOwnName_leaf]

/-- An entry lies in the directory of the repository when that is the first directory of its name. -/
theorem own_prefix_names_iff : [".git"] <+: names name ↔ (directories name).head? = some ".git" := by
  rw [names]
  cases directories name with
  | nil =>
      have hLeaf : leaf name ++ ".age" ≠ ".git" := leaf_ne (by decide) name
      simp [List.cons_prefix_cons, hLeaf.symm]
  | cons dir dirs => simp [List.cons_prefix_cons, eq_comm]

/-- A name below `.git` leads to a file with the extension there. -/
theorem names_of_own (h : (directories name).head? = some ".git") :
    ∃ front, (names name).tail = front ++ [leaf name ++ ".age"] ∧ names name = ".git" :: (names name).tail := by
  obtain ⟨dirs, hDirs⟩ := List.head?_eq_some_iff.1 h
  exact ⟨dirs, by simp [names, hDirs], by simp [names, hDirs]⟩

/-- An entry is none of the files that are read for what they say. -/
theorem concat_ne_leaf {text : String} (h : ¬ suffix <:+ text.toList) (base front : List String) (name : String) :
    base ++ [text] ≠ front ++ [leaf name ++ ".age"] := fun hSame =>
  leaf_ne h name (List.singleton_inj.1 (List.append_inj_right' hSame rfl)).symm

/-! ### What is written -/

/-- The way from a store down to an entry. -/
def Way (loc : Location) (name : String) (l : Location) : Prop :=
  loc <+: l ∧ l <+: loc ++ directories name

/-- An entry that was encrypted lies in its file. Besides, at most the directories that lead to it were made. -/
theorem puts_of_encrypt (hTree : files.WellFormed) (hRoot : files.resolve root = .ok loc)
    (hDir : files.lookup loc = some .directory)
    (hEncrypt : encrypt keys root name plain files entropy = (.ok path, files', entropy')) :
    files'.WellFormed ∧ ∃ sealed mode, Puts (Way loc name) files files' (loc ++ names name) sealed mode := by
  have hStore : files.isDirectory root = true := isDirectory_eq_true_iff.2 ⟨loc, hRoot, hDir⟩
  have hTree' : files'.WellFormed := by
    rcases encrypt_cases keys root name plain entropy hTree with
      ⟨_, _, _, hFailed, -⟩ | ⟨_, _, _, made, _, _, _, -, -, -, hMade, -, hPath, hNode, hOk⟩
    · rw [hEncrypt] at hFailed
      cases hFailed
    · rw [hEncrypt] at hOk
      cases hOk
      exact hMade.insert_file hPath hNode _ _
  obtain ⟨sealed, mode, hPuts⟩ := puts_of_encrypt_place hEncrypt
  rw [destination_of_resolve hRoot] at hPuts
  refine ⟨hTree', sealed, mode, hPuts.mono fun l hPlace => ?_⟩
  rw [← destination_of_resolve hRoot]
  exact hPlace.2 hStore

/-! ### What becomes of it -/

section Written

variable {sealed : ByteArray} {mode : Nat}

/-- In the directory of the repository an entry is one more file of others. -/
theorem strays_of_puts (hTree : files.WellFormed) (hTree' : files'.WellFormed)
    (hPuts : Puts (Way loc name) files files' (loc ++ names name) sealed mode) :
    filesBelow files' (loc ++ [".git"]) isStray =
      if (directories name).head? = some ".git" then
        (filesBelow files (loc ++ [".git"]) isStray).put (names name).tail sealed
      else filesBelow files (loc ++ [".git"]) isStray := by
  split
  · rename_i hHead
    obtain ⟨front, hTail, hNames⟩ := names_of_own hHead
    have hEntry : loc ++ names name = loc ++ [".git"] ++ (names name).tail := by
      rw [List.append_assoc, List.singleton_append, ← hNames]
    have hStray : isStray (names name).tail = true := by
      have hOther {text : String} (h : ¬ suffix <:+ text.toList) : front ++ [leaf name ++ ".age"] ≠ [text] :=
        (concat_ne_leaf h [] front name).symm
      rw [hTail, isStray, Bool.and_eq_true, decide_eq_true_eq, decide_eq_true_eq]
      exact ⟨hOther (by decide), hOther (by decide)⟩
    rw [filesBelow_of_puts hPuts hTree hTree' (by simp [hTail]) hEntry, if_pos hStray]
  · rename_i hHead
    refine filesBelow_of_outside hPuts hTree hTree' (fun hBelow => hHead ?_) isStray
    exact own_prefix_names_iff.1 ((List.prefix_append_right_inj loc).1 hBelow)

/-- In the work tree an entry is one more file, unless its name leads through a directory of that kind. -/
theorem work_of_puts (hTree : files.WellFormed) (hTree' : files'.WellFormed)
    (hPuts : Puts (Way loc name) files files' (loc ++ names name) sealed mode) :
    filesBelow files' loc (!·.any isOwnName) =
      if (directories name).any isOwnName then filesBelow files loc (!·.any isOwnName)
      else (filesBelow files loc (!·.any isOwnName)).put (names name) sealed := by
  rw [filesBelow_of_puts hPuts hTree hTree' (by simp [names]) rfl, any_isOwnName_names]
  cases (directories name).any isOwnName <;> rfl

/-- A checkout once an entry was written. -/
def withEntry (c : Checkout) (name : String) (sealed : ByteArray) : Checkout :=
  { c with
    strays := if (directories name).head? = some ".git" then c.strays.put (names name).tail sealed else c.strays
    work := if (directories name).any isOwnName then c.work else c.work.put (names name) sealed }

theorem work_withEntry (c : Checkout) (name : String) (sealed : ByteArray) : (withEntry c name sealed).work =
    if (directories name).any isOwnName then c.work else c.work.put (names name) sealed := rfl

theorem strays_withEntry (c : Checkout) (name : String) (sealed : ByteArray) : (withEntry c name sealed).strays =
    if (directories name).head? = some ".git" then c.strays.put (names name).tail sealed else c.strays := rfl

/-- The work tree is still open, with the entry. -/
theorem open?_of_puts (hTree : host.files.WellFormed) (hTree' : files'.WellFormed)
    (hRoot : host.files.resolve root = .ok loc) (hOpen : host.open? root = some (loc, c)) (hWork : c.bare = false)
    (hPuts : Puts (Way loc name) host.files files' (loc ++ names name) sealed mode) :
    (host.withFiles fun _ => files').open? root = some (loc, withEntry c name sealed) := by
  obtain ⟨hKept, hFiles⟩ := (open?_eq_some_iff hRoot hWork).1 hOpen
  have hGit : c.directory loc = loc ++ [".git"] := by simp [Repository.directory, hWork]
  have hOwn : ∀ own ∈ ["HEAD", "config"], c.directory loc ++ [own] ≠ loc ++ names name := by
    intro own hOwn
    rw [names, ← List.append_assoc]
    refine concat_ne_leaf ?_ _ _ name
    rcases List.mem_pair.1 hOwn with rfl | rfl <;> decide
  have hKept' := kept?_of_puts hPuts hTree hKept hOwn
  have hStrays := strays_of_kept hKept
  rw [hGit] at hKept' hStrays
  rw [strays_of_puts hTree hTree' hPuts, ← hStrays] at hKept'
  have hWork' : (withEntry c name sealed).bare = false := hWork
  refine (open?_eq_some_iff (hPuts.resolve hRoot) hWork').2 ⟨hKept', ?_⟩
  rw [work_withEntry, hFiles]
  exact (work_of_puts hTree hTree' hPuts).symm

/-- A work tree has no file whose path leads through a directory of a repository. -/
theorem get?_names_of_own (hTree : host.files.WellFormed) (hRoot : host.files.resolve root = .ok loc)
    (hOpen : host.open? root = some (loc, c)) (hWork : c.bare = false)
    (hOwn : (directories name).any isOwnName = true) : c.work.get? (names name) = none := by
  rw [((open?_eq_some_iff hRoot hWork).1 hOpen).2]
  refine Option.eq_none_iff_forall_ne_some.2 fun content hContent => ?_
  have hWanted := ((get?_filesBelow hTree).1 hContent).2.1
  rw [any_isOwnName_names, hOwn] at hWanted
  cases hWanted

/-- Staging takes an entry of the work tree in, unless it is new and rules leave it out. -/
theorem stagedContent_withEntry (c : Checkout)
    (hNone : (directories name).any isOwnName = true → c.work.get? (names name) = none) (sealed : ByteArray) :
    (withEntry c name sealed).stagedContent (names name) =
      if (directories name).any isOwnName then none
      else if c.isTracked (names name) || !Ignore.isIgnored c (names name) then some sealed else none := by
  -- an entry is no file of rules, so the rules are the same with it
  have hRules (base : TreePath) :
      (withEntry c name sealed).work.get? (base ++ [".gitignore"]) = c.work.get? (base ++ [".gitignore"]) := by
    have hOther : base ++ [".gitignore"] ≠ names name := concat_ne_leaf (by decide) base _ name
    rw [work_withEntry]
    split
    · rfl
    · rw [Tree.get?_put, if_neg hOther]
  have hOwn : (withEntry c name sealed).strays.get? ["info", "exclude"] = c.strays.get? ["info", "exclude"] := by
    rw [strays_withEntry]
    split
    · rename_i hHead
      obtain ⟨front, hTail, -⟩ := names_of_own hHead
      have hOther : ["info"] ++ ["exclude"] ≠ (names name).tail := hTail ▸ concat_ne_leaf (by decide) _ front name
      rw [Tree.get?_put]
      exact if_neg hOther
    · rfl
  have hTracked : (withEntry c name sealed).isTracked (names name) = c.isTracked (names name) := rfl
  rw [Checkout.stagedContent, hTracked, Checkout.isIgnored_congr hRules hOwn, work_withEntry]
  by_cases hAny : (directories name).any isOwnName = true
  · rw [if_pos hAny, if_pos hAny, hNone hAny, ite_self]
  · rw [if_neg hAny, if_neg hAny, Tree.get?_put, if_pos rfl]

end Written

/-- No directory that a name leads through has a repository of its own. A directory that has one is not a
directory of the work tree around it. -/
def LeadsThroughOne (files : Files) (loc : Location) (name : String) : Prop :=
  ∀ dir, dir ≠ [] → dir <+: directories name → files.lookup (loc ++ dir ++ [".git"]) = none

/-- An entry that was encrypted in a work tree lies in its file below the store, and besides at most directories on
the way to it are new. When the first directory of its name is `.git`, the file lies among those of the repository
and is one more that others left there; otherwise nothing of the repository's own changes. When one of the
directories goes by that name, in any letter case, staging leaves the entry out. For a name that leads through no
other repository the files of the work tree are then what they were; and if no directory goes by that name the
entry is a file of the work tree, and staging takes it in unless the repository does not know it and rules leave it
out. -/
theorem encrypt_reaches (hTree : host.files.WellFormed) (hRoot : host.files.resolve root = .ok loc)
    (hOpen : host.open? root = some (loc, c)) (hWork : c.bare = false)
    (hEncrypt : encrypt keys root name plain host.files entropy = (.ok path, files', entropy')) :
    ∃ sealed mode c', files'.lookup (loc ++ names name) = some (.file sealed mode) ∧
      (∀ l, l ≠ loc ++ names name → files'.lookup l = host.files.lookup l ∨
        host.files.lookup l = none ∧ files'.lookup l = some .directory ∧ loc <+: l ∧ l <+: loc ++ directories name) ∧
      (host.withFiles fun _ => files').open? root = some (loc, c') ∧
      (if (directories name).head? = some ".git" then
        loc ++ [".git"] <+: loc ++ names name ∧
          c'.toRepository = { c.toRepository with strays := c.strays.put (names name).tail sealed }
      else (∀ l, loc ++ [".git"] <+: l → files'.lookup l = host.files.lookup l) ∧ c'.toRepository = c.toRepository) ∧
      ((directories name).any isOwnName = true →
        ∀ staged, c'.addAll = (.ok (), staged) → staged.index.staged.get? (names name) = none) ∧
      (LeadsThroughOne files' loc name →
        c'.work = (if (directories name).any isOwnName then c.work else c.work.put (names name) sealed) ∧
        ∀ staged, c'.addAll = (.ok (), staged) → staged.index.staged.get? (names name) =
          if (directories name).any isOwnName then none
          else if c.isTracked (names name) || !Ignore.isIgnored c (names name) then some sealed else none) := by
  have hKept := ((open?_eq_some_iff hRoot hWork).1 hOpen).1
  have hDir : host.files.lookup loc = some .directory := by
    simpa [Repository.directory, hWork] using hTree.parent (lookup_directory hTree hKept)
  obtain ⟨hTree', sealed, mode, hPuts⟩ := puts_of_encrypt hTree hRoot hDir hEncrypt
  -- what staging does to the entry is decided by its name and the rules, not by what was written
  have hStaged (staged : Checkout) (hAdd : (withEntry c name sealed).addAll = (.ok (), staged)) :
      staged.index.staged.get? (names name) =
        if (directories name).any isOwnName then none
        else if c.isTracked (names name) || !Ignore.isIgnored c (names name) then some sealed else none := by
    obtain ⟨-, rfl⟩ := Checkout.addAll_eq_ok hAdd
    rw [Checkout.get?_stagedAll]
    exact stagedContent_withEntry c (get?_names_of_own hTree hRoot hOpen hWork) sealed
  refine ⟨sealed, mode, withEntry c name sealed, hPuts.written, hPuts.elsewhere,
    open?_of_puts hTree hTree' hRoot hOpen hWork hPuts, ?_, fun hOwn staged hAdd => ?_, fun _ => ⟨rfl, hStaged⟩⟩
  · split
    · rename_i hHead
      exact ⟨(List.prefix_append_right_inj loc).2 (own_prefix_names_iff.2 hHead), by simp [withEntry, hHead]⟩
    · rename_i hHead
      have hOutside : ¬ loc ++ [".git"] <+: loc ++ names name := fun hEntry =>
        hHead (own_prefix_names_iff.1 ((List.prefix_append_right_inj loc).1 hEntry))
      refine ⟨fun l hBelow => ?_, by simp [withEntry, hHead]⟩
      have hNe : l ≠ loc ++ names name := by
        rintro rfl
        exact hOutside hBelow
      rcases hPuts.elsewhere l hNe with hSame | ⟨-, -, -, hWay⟩
      · exact hSame
      · have hAbove : loc ++ directories name <+: loc ++ names name :=
          (List.prefix_append_right_inj loc).2 (List.prefix_append _ _)
        exact absurd ((hBelow.trans hWay).trans hAbove) hOutside
  · rw [hStaged staged hAdd, if_pos hOwn]

/-! ### A store with a key -/

/-- A store without files that is a work tree, beside a directory with a key. -/
def workTree (key : ParsedKey) : Host where
  files :=
    { workDir := []
      entries := [(["data"], .directory), (["data", "keys"], .directory),
        (["data", "keys", "one.key"], .file key.1.secret KeyStore.fileMode), (["data", "store"], .directory),
        (["data", "store", ".git"], .directory),
        (["data", "store", ".git", "HEAD"], .file (Head.branch "master").fileText.toUTF8 defaultMode)] }
  repositories := [(["data", "store"], .init false)]

section WorkTree

variable (key : ParsedKey)

theorem wellFormed_workTree : (workTree key).files.WellFormed where
  distinct := by
    show List.Nodup [["data"], ["data", "keys"], ["data", "keys", "one.key"], ["data", "store"],
      ["data", "store", ".git"], ["data", "store", ".git", "HEAD"]]
    decide
  rooted := by simp [workTree]
  parents e hMem := by
    simp only [workTree, List.mem_cons, List.not_mem_nil, or_false] at hMem
    rcases hMem with rfl | rfl | rfl | rfl | rfl | rfl <;> rfl
  workDir := rfl

theorem all_workTree : (KeyStore.inData "data").all (workTree key).files = .ok [key.1] := by
  have hFound : (KeyStore.inData "data").keyFiles (workTree key).files = .ok [("one.key", key.1.secret)] := rfl
  have hDir : (KeyStore.inData "data").requireDir (workTree key).files = .ok () := rfl
  rw [KeyStore.all, hDir, hFound]
  exact KeyStore.mapM_readKey_eq_ok.2 (by simp [key.ofFile_secret])

/-- The store is a work tree in which nothing is left out, and its index can be written. -/
theorem open?_workTree : ∃ c, (workTree key).open? "data/store" = some (["data", "store"], c) ∧ c.bare = false ∧
    c.index = .ofTree .empty ∧ c.isLocked ["index"] = false ∧ ∀ path, Ignore.isIgnored c path = false := by
  have hTree := wellFormed_workTree key
  have hHead : ownText (workTree key).files ["data", "store", ".git"] "HEAD" = some (Head.branch "master").fileText :=
    fromUTF8?_toUTF8 _
  have hConfig : ownText (workTree key).files ["data", "store", ".git"] "config" = none := rfl
  have hRepo : (workTree key).repositories.lookup ["data", "store"] = some (.init false) := rfl
  obtain ⟨full, hFull, hIndex⟩ : ∃ full, complete (workTree key).files ["data", "store"] (.init false) = some full ∧
      full.index = .ofTree .empty := by
    simp [complete, Repository.directory, Repository.init, hHead, hConfig]
  have hBare : full.bare = false := (complete_eq_some hFull).1
  have hGit : full.directory ["data", "store"] = ["data", "store", ".git"] := by simp [Repository.directory, hBare]
  have hStrays := (complete_eq_some hFull).2.1
  rw [hGit] at hStrays
  -- the repository of the example holds its `HEAD` and no more
  have hAbsent {path : TreePath} (hNone : (workTree key).files.lookup (["data", "store", ".git"] ++ path) = none) :
      full.strays.get? path = none := by
    refine Option.eq_none_iff_forall_ne_some.2 fun content hContent => ?_
    rw [hStrays, get?_filesBelow hTree, hNone] at hContent
    simp at hContent
  let c : Checkout := { full with work := filesBelow (workTree key).files ["data", "store"] (!·.any isOwnName) }
  have hRules : c.work.Ruleless := by
    intro base content hContent
    obtain ⟨-, -, mode, hFile⟩ := (get?_filesBelow hTree).1 hContent
    rw [hTree.lookup_eq_some_iff (by simp), ← List.append_assoc] at hFile
    have hLast : ∀ e ∈ (workTree key).files.entries, e.1.getLast? ≠ some ".gitignore" := by simp [workTree]
    exact absurd List.getLast?_concat (hLast _ hFile)
  have hOwn : c.Ruleless := by
    intro content hContent
    have hNone : c.strays.get? ["info", "exclude"] = none := hAbsent rfl
    rw [hNone] at hContent
    cases hContent
  refine ⟨c, (open?_eq_some_iff rfl hBare).2 ⟨?_, rfl⟩, hBare, hIndex, ?_, Checkout.isIgnored_eq_false hOwn hRules⟩
  · rw [kept?, hRepo]
    exact hFull
  · have hLock : c.strays.get? (Repository.lockOf ["index"]) = none := hAbsent rfl
    rw [Repository.isLocked, hLock]
    rfl

/-- What can be written there is encrypted there. -/
theorem encrypt_workTree (hName : location "data/store" name = .ok path) (hWrite : (workTree key).files.Accepts path)
    (plain : ByteArray) (entropy : Entropy) : ∃ files' entropy',
      encrypt (.inData "data") "data/store" name plain (workTree key).files entropy = (.ok path, files', entropy') := by
  have hAll : (KeyStore.inData "data").all (workTree key).files = .ok ([key].map (·.1)) := all_workTree key
  obtain ⟨files', -, -, hEncrypt, -⟩ :=
    encrypt_of_accepts (wellFormed_workTree key) hName hAll (List.cons_ne_nil _ _) hWrite
  exact ⟨files', _, hEncrypt⟩

end WorkTree

/-- An entry in a directory of its own is a file of the work tree and is staged. -/
theorem encrypt_reaches_mail : ∃ (keys : KeyStore) (host : Host) (c c' staged : Checkout) (files' : Files)
      (entropy' : Entropy) (sealed : ByteArray), host.open? "data/store" = some (["data", "store"], c) ∧
    encrypt keys "data/store" "mail/work" .empty host.files ⟨.empty, 0⟩ =
      (.ok "data/store/mail/work.age", files', entropy') ∧
    (∀ l, ["data", "store", ".git"] <+: l → files'.lookup l = host.files.lookup l) ∧
    (host.withFiles fun _ => files').open? "data/store" = some (["data", "store"], c') ∧
    c'.addAll = (.ok (), staged) ∧ staged.index.staged.get? ["mail", "work.age"] = some sealed := by
  obtain ⟨key⟩ : Nonempty ParsedKey := ⟨.ofIdentity ⟨Bytes.replicate 32 7⟩ rfl⟩
  obtain ⟨c, hOpen, hBare, hIndex, hFree, hIgnored⟩ := open?_workTree key
  obtain ⟨files', entropy', hEncrypt⟩ :=
    encrypt_workTree key (show location "data/store" "mail/work" = .ok _ from rfl) ⟨_, .empty, _, rfl, rfl⟩ .empty
      ⟨.empty, 0⟩
  obtain ⟨sealed, -, c', -, hElsewhere, hOpen', hOwn, -, hReached⟩ :=
    encrypt_reaches (wellFormed_workTree key) rfl hOpen hBare hEncrypt
  have hNames : names "mail/work" = ["mail", "work.age"] := by decide
  have hDirectories : directories "mail/work" = ["mail"] := by decide
  have hOne : LeadsThroughOne files' ["data", "store"] "mail/work" := by
    intro dir hSome hDir
    obtain rfl : dir = ["mail"] := by
      cases dir with
      | nil => exact absurd rfl hSome
      | cons first rest => simpa [hDirectories, List.cons_prefix_cons] using hDir
    rcases hElsewhere ["data", "store", "mail", ".git"] (by rw [hNames]; decide) with hSame | ⟨-, -, -, hMade⟩
    · exact hSame
    · rw [hDirectories] at hMade
      exact absurd hMade (by decide)
  obtain ⟨-, hStaged⟩ := hReached hOne
  have hPlain : (directories "mail/work").any isOwnName = false := by decide
  rw [if_neg (by decide)] at hOwn
  obtain ⟨hKept, hSame⟩ := hOwn
  have hStageable : c'.Stageable :=
    { present := by simp [hSame, hIndex, Index.ofTree]
      free := by rw [hSame, hFree] }
  obtain ⟨-, hAdd⟩ := c'.addAll_cases.resolve_right fun h => h.1 hStageable
  refine ⟨_, workTree key, c, c', _, files', entropy', sealed, hOpen, hEncrypt, hKept, hOpen', hAdd, ?_⟩
  rw [← hNames, hStaged _ hAdd, hPlain, hIgnored]
  simp

/-- An entry whose name leads into the directory of the repository is written there, and no work tree has it. -/
theorem encrypt_reaches_own : ∃ (keys : KeyStore) (host : Host) (c c' : Checkout) (files' : Files) (entropy' : Entropy)
      (sealed : ByteArray) (mode : Nat), host.open? "data/store" = some (["data", "store"], c) ∧ c.bare = false ∧
    encrypt keys "data/store" ".git/mail" .empty host.files ⟨.empty, 0⟩ =
      (.ok "data/store/.git/mail.age", files', entropy') ∧
    host.files.lookup ["data", "store", ".git", "mail.age"] = none ∧
    files'.lookup ["data", "store", ".git", "mail.age"] = some (.file sealed mode) ∧
    (host.withFiles fun _ => files').open? "data/store" = some (["data", "store"], c') ∧ c'.work = c.work := by
  obtain ⟨key⟩ : Nonempty ParsedKey := ⟨.ofIdentity ⟨Bytes.replicate 32 7⟩ rfl⟩
  obtain ⟨c, hOpen, hBare, -⟩ := open?_workTree key
  obtain ⟨files', entropy', hEncrypt⟩ :=
    encrypt_workTree key (show location "data/store" ".git/mail" = .ok _ from rfl) ⟨_, .empty, _, rfl, rfl⟩ .empty
      ⟨.empty, 0⟩
  have hTree := wellFormed_workTree key
  have hRoot : (workTree key).files.resolve "data/store" = .ok ["data", "store"] := rfl
  obtain ⟨hTree', sealed, mode, hPuts⟩ := puts_of_encrypt hTree hRoot rfl hEncrypt
  have hNames : names ".git/mail" = [".git", "mail.age"] := by decide
  have hWritten := hPuts.written
  rw [hNames] at hWritten
  exact ⟨_, workTree key, c, withEntry c ".git/mail" sealed, files', entropy', sealed, mode, hOpen, hBare, hEncrypt,
    rfl, hWritten, open?_of_puts hTree hTree' hRoot hOpen hBare hPuts, by rw [work_withEntry, if_pos (by decide)]⟩

end VaultSync.Entries
