import VaultSync.Proofs.Files.Tree

/-! Files that are written under a name of their own and then moved to where they belong. However far such a write
gets, it leaves what a write in a single step leaves, or nothing at all. -/
namespace VaultSync.Files

/-- Makes an empty file under a name that is free. -/
def createNew (files : Files) (path : String) (mode : Nat) : Except FileError Files := do
  let loc ← files.resolve path
  match files.lookup loc with
  | none => .ok (files.insert loc (.file .empty mode))
  | some _ => .error .exists

/-- Moves what lies at a path, in place of a plain file. -/
def rename (files : Files) (source target : String) : Except FileError Files := do
  let old ← files.resolve source
  let new ← files.resolve target
  match files.lookup old, files.lookup new with
  | none, _ => .error .notFound
  | some _, some .directory => .error .isDirectory
  | some node, _ => .ok ((files.erase old).insert new node)

/-- Takes a file away, if that is possible. -/
def discard (files : Files) (path : String) : Files :=
  (files.removeFile path).toOption.getD files

/-- A write that breaks off: what was written before, and why no more was. -/
structure Break where
  written : ByteArray
  reason : FileError

/-- Writes to a file that is open. -/
def fill (files : Files) (path : String) (content : ByteArray) : Option Break → Except FileError Unit × Files
  | none =>
    match files.write path content with
    | .error e => (.error e, files)
    | .ok files => (.ok (), files)
  | some broken => (.error broken.reason, (files.write path broken.written).toOption.getD files)

/-- Puts a plain file at a path step by step: it is written under a free name beside the path and then moved there.
If a step fails, the file that was begun is taken away. -/
def replaceThrough (files : Files) (temp path : String) (content : ByteArray) (mode : Nat)
    (broken : Option Break) : Except FileError Unit × Files :=
  match files.createNew temp mode with
  | .error e => (.error e, files)
  | .ok fresh =>
    match fresh.fill temp content broken with
    | (.error e, torn) => (.error e, torn.discard temp)
    | (.ok (), full) =>
      match full.rename temp path with
      | .error e => (.error e, full.discard temp)
      | .ok files => (.ok (), files)

variable {files fresh : Files} {loc : Location} {node : Node} {temp path : String} {content : ByteArray} {mode : Nat}
  {broken : Option Break}

/-! ### Places that are free -/

/-- A file is only created where its path resolves and nothing lies. -/
theorem exists_free_of_createNew (h : files.createNew temp mode = .ok fresh) :
    ∃ loc, files.resolve temp = .ok loc ∧ files.lookup loc = none := by
  obtain ⟨loc, hTemp, h⟩ := bind_eq_ok.1 h
  split at h
  · rename_i hFree
    exact ⟨loc, hTemp, hFree⟩
  · cases h

theorem ne_directory_of_free (hFree : files.lookup loc = none) : files.lookup loc ≠ some .directory := by
  rw [hFree]
  simp

/-- Erasing where nothing lies changes no entry. -/
theorem filter_of_free (hFree : files.lookup loc = none) :
    files.entries.filter (fun e => decide (e.1 ≠ loc)) = files.entries := by
  rw [lookup_of_ne_root (ne_root_of_lookup (ne_directory_of_free hFree)), List.lookup_eq_none_iff] at hFree
  refine List.filter_eq_self.2 fun e hEntry => decide_eq_true fun hLoc => ?_
  simpa [hLoc] using hFree e hEntry

theorem lookup_insert_of_free (hFree : files.lookup loc = none) (node : Node) :
    (files.insert loc node).lookup loc = some node := by
  rw [lookup_insert _ _ (ne_root_of_lookup (ne_directory_of_free hFree)), if_pos rfl]

/-- What is put down twice lies there once. -/
theorem insert_insert (node' : Node) : (files.insert loc node).insert loc node' = files.insert loc node' := by
  simp [insert, List.filter_append, List.filter_filter]

/-- What was put where nothing was can be taken away again. -/
theorem erase_insert (hFree : files.lookup loc = none) : (files.insert loc node).erase loc = files := by
  have hEntries : (files.insert loc node).entries.filter (fun e => decide (e.1 ≠ loc)) = files.entries := by
    rw [insert, filter_of_free hFree, List.filter_append, filter_of_free hFree]
    simp
  rw [erase, hEntries]
  rfl

section Free

variable (hTemp : files.resolve temp = .ok loc) (hFree : files.lookup loc = none)

include hTemp hFree

theorem resolve_temp (node : Node) : (files.insert loc node).resolve temp = .ok loc :=
  resolve_insert (ne_directory_of_free hFree) hTemp

theorem createNew_temp (mode : Nat) : files.createNew temp mode = .ok (files.insert loc (.file .empty mode)) := by
  rw [createNew, hTemp]
  simp only [bind, Except.bind, hFree]

theorem write_temp (first content : ByteArray) :
    (files.insert loc (.file first mode)).write temp content = .ok (files.insert loc (.file content mode)) := by
  rw [write, resolve_temp hTemp hFree]
  simp only [bind, Except.bind, lookup_insert_of_free hFree, insert_insert]

/-- Once the temporary file is discarded, the files are as before. -/
theorem discard_temp : (files.insert loc (.file content mode)).discard temp = files := by
  have hRemoved : (files.insert loc (.file content mode)).removeFile temp = .ok files := by
    rw [removeFile, resolve_temp hTemp hFree]
    simp only [bind, Except.bind, lookup_insert_of_free hFree, erase_insert hFree]
  rw [discard, hRemoved]
  rfl

/-- Moving the file to a path is putting it there at once. -/
theorem rename_temp (hPath : (files.insert loc (.file content mode)).resolve path = files.resolve path) :
    (files.insert loc (.file content mode)).rename temp path = files.replace path content mode := by
  rw [rename, resolve_temp hTemp hFree, replace, hPath]
  cases files.resolve path with
  | error e => rfl
  | ok target =>
      simp only [bind, Except.bind, lookup_insert_of_free hFree, erase_insert hFree]
      by_cases hSame : target = loc
      · subst hSame
        simp only [lookup_insert_of_free hFree, hFree]
      · rw [lookup_insert_of_ne _ _ hSame]
        split <;> simp_all

/-- A write that does not break off leaves what a write in a single step leaves. -/
theorem replaceThrough_eq (hPath : (files.insert loc (.file content mode)).resolve path = files.resolve path) :
    files.replaceThrough temp path content mode none =
      match files.replace path content mode with
      | .error e => (.error e, files)
      | .ok files' => (.ok (), files') := by
  rw [replaceThrough, createNew_temp hTemp hFree]
  simp only [fill, write_temp hTemp hFree, rename_temp hTemp hFree hPath]
  cases files.replace path content mode with
  | error e => simp only [discard_temp hTemp hFree]
  | ok files' => rfl

/-- A replacement that breaks off fails with the reason and leaves the files as before. -/
theorem replaceThrough_broken (broken : Break) :
    files.replaceThrough temp path content mode (some broken) = (.error broken.reason, files) := by
  rw [replaceThrough, createNew_temp hTemp hFree]
  simp only [fill, write_temp hTemp hFree, Except.toOption, Option.getD_some, discard_temp hTemp hFree]

end Free

/-- A write step by step leaves what a write in a single step leaves, or it fails and all is as it was. -/
theorem replaceThrough_cases (hPath : ∀ loc, files.resolve temp = .ok loc → files.lookup loc = none →
      (files.insert loc (.file content mode)).resolve path = files.resolve path) :
    (∃ e, files.replaceThrough temp path content mode broken = (.error e, files)) ∨
    ∃ files', files.replace path content mode = .ok files' ∧
      files.replaceThrough temp path content mode broken = (.ok (), files') := by
  cases hNew : files.createNew temp mode with
  | error e => exact .inl ⟨e, by rw [replaceThrough, hNew]⟩
  | ok fresh =>
      obtain ⟨loc, hTemp, hFree⟩ := exists_free_of_createNew hNew
      cases broken with
      | some broken => exact .inl ⟨_, replaceThrough_broken hTemp hFree broken⟩
      | none =>
          have hWhole := replaceThrough_eq hTemp hFree (hPath loc hTemp hFree)
          cases hReplace : files.replace path content mode with
          | error e => exact .inl ⟨e, by rw [hWhole, hReplace]⟩
          | ok files' => exact .inr ⟨files', rfl, by rw [hWhole, hReplace]⟩

end VaultSync.Files
