import VaultSync.Cli.Setup
import VaultSync.Proofs.Entries.Location
import VaultSync.Proofs.Files.Made
import VaultSync.Proofs.Files.Spares

/-! What writing and reading entries changes besides them. An entry that is encrypted changes its own file, one that is
not changes no file at all, and wherever it fails it leaves at most empty directories behind. -/
namespace VaultSync

namespace Files

variable {files files' : Files} {l : Location} {places : Location → Prop} {below : List String}
  {content : ByteArray} {mode : Nat}

/-- In a tree to which only directories were added, no file lies below where nothing was. -/
theorem GrowsAt.lookup_below_ne_file (h : GrowsAt places files files') (hTree : files.WellFormed)
    (hMissing : files.lookup l = none) : files'.lookup (l ++ below) ≠ some (.file content mode) := by
  intro hFile
  rcases h (l ++ below) with hSame | ⟨-, hMade, -⟩
  · rw [hSame] at hFile
    by_cases hBelow : below = []
    · rw [hBelow, List.append_nil, hMissing] at hFile
      cases hFile
    · rw [(hTree.exists_child hBelow hFile).1] at hMissing
      cases hMissing
  · rw [hMade] at hFile
    cases hFile

end Files

namespace Entries

open Files VaultSync.Path

variable {keys : KeyStore} {files files' : Files} {root name path : String} {plain : ByteArray}
  {entropy entropy' : Entropy}

/-- Where directories are made for an entry: on the way to its file, and if the store is there, from the store down. -/
def Place (root name : String) (files : Files) (l : Location) : Prop :=
  OnWay (files.start root) (spelled (Text.splitOnChar '/' root) ++ directories name) l ∧
    (files.isDirectory root = true → files.destination root <+: l ∧ l <+: files.destination root ++ directories name)

/-- The directories made for an entry lie on the way to its place. -/
theorem createParents_growsAt_place (h : location root name = .ok path) (files : Files) :
    GrowsAt (Place root name files) files (files.createParents path).2 := by
  have hAccepted := accepted_of_location h
  obtain ⟨-, rfl⟩ := location_eq_ok h
  intro l
  rcases createParents_join_onWay files root hAccepted.isAbsolute_file (spelled_file name) l with
    hSame | ⟨hNone, hMade, hWay⟩
  · exact .inl hSame
  · refine .inr ⟨hNone, hMade, hWay, fun hStore => ?_⟩
    obtain ⟨loc, hRoot, hDir⟩ := isDirectory_eq_true_iff.1 hStore
    rw [destination_of_resolve hRoot]
    exact hWay.below hRoot hDir (fun part hPart => hAccepted.isName_of_mem (List.mem_append_left _ hPart)) hNone

/-- An entry that is not encrypted leaves all as it was, unless directories were made for its file. -/
theorem encrypt_eq_error {e : VaultError}
    (h : encrypt keys root name plain files entropy = (.error e, files', entropy')) :
    files' = files ∨ ∃ path, location root name = .ok path ∧ files' = (files.createParents path).2 := by
  rw [encrypt] at h
  split at h
  · cases h
    exact .inl rfl
  · cases h
    exact .inl rfl
  · rename_i path recipients hName _
    split at h
    · cases h
      exact .inl rfl
    · split at h
      · rename_i hMade
        cases h
        exact .inr ⟨path, hName, by rw [hMade]⟩
      · rename_i made hMade
        split at h
        · cases h
          exact .inr ⟨path, hName, by rw [hMade]⟩
        · cases h

/-- An entry that is not encrypted has at most got directories. -/
theorem growsAt_of_encrypt {e : VaultError}
    (h : encrypt keys root name plain files entropy = (.error e, files', entropy')) :
    GrowsAt (Place root name files) files files' := by
  rcases encrypt_eq_error h with rfl | ⟨path, hName, rfl⟩
  · exact .refl _ _
  · exact createParents_growsAt_place hName files

/-- An entry that is encrypted has got its file besides. -/
theorem puts_of_encrypt_place (h : encrypt keys root name plain files entropy = (.ok path, files', entropy')) :
    ∃ sealed mode, Puts (Place root name files) files files' (files.destination root ++ names name) sealed mode := by
  obtain ⟨hName, sealed, made, hMade, hWrite⟩ := encrypt_eq_ok h
  have hGrows := createParents_growsAt_place hName files
  have hWork : (files.createParents path).2.workDir = files.workDir :=
    (@Spares.createParents (fun _ => False) files path).workDir
  rw [hMade] at hGrows hWork
  obtain ⟨loc, mode, hPath, hNode, rfl⟩ := write_eq_ok hWrite
  obtain rfl : loc = files.destination root ++ names name := by
    rw [← destination_of_resolve hPath, destination_congr hWork, destination_location hName]
  exact ⟨sealed, mode, .insert hWork hGrows hNode⟩

/-- Reading an entry changes no file. -/
theorem host_revealEntry (dataDir name : String) (m : Cli.Machine) :
    (Cli.revealEntry dataDir name m).2.host = m.host := by
  rw [Cli.revealEntry]
  split
  · rfl
  · split
    · rfl
    · rfl

/-- Encrypting an entry changes no file but its own, and that one only when it succeeds. Then the path that is told
leads to it. When it fails, all files are what they were, and at most directories on the way to the entry were made:
only below the store if that is there, and none with a file in it. None are made when the name is not accepted or no
key is found. Reading an entry changes nothing. -/
theorem encrypt_touches (keys : KeyStore) (root name : String) (plain : ByteArray) (files : Files)
    (entropy : Entropy) :
    (∀ path files' entropy', encrypt keys root name plain files entropy = (.ok path, files', entropy') →
      location root name = .ok path ∧
      ∃ sealed mode, Puts (Place root name files) files files' (files.destination root ++ names name) sealed mode) ∧
    (∀ e files' entropy', encrypt keys root name plain files entropy = (.error e, files', entropy') →
      GrowsAt (Place root name files) files files' ∧
      (∀ l content mode, files'.lookup l = some (.file content mode) ↔ files.lookup l = some (.file content mode)) ∧
      (files.WellFormed → ∀ l below content mode, files.lookup l = none →
        files'.lookup (l ++ below) ≠ some (.file content mode))) ∧
    ((∀ path stored, location root name = .ok path → keys.all files = .ok stored → stored = []) →
      ∃ e, encrypt keys root name plain files entropy = (.error e, files, entropy)) ∧
    ∀ dataDir m, (Cli.revealEntry dataDir name m).2.host = m.host := by
  refine ⟨fun path files' entropy' hOk => ⟨(encrypt_eq_ok hOk).1, puts_of_encrypt_place hOk⟩,
    fun e files' entropy' hError => ?_, fun hNone => ?_, fun dataDir m => host_revealEntry dataDir name m⟩
  · have hGrows := growsAt_of_encrypt hError
    exact ⟨hGrows, fun l content mode => hGrows.file_iff,
      fun hTree l below content mode => hGrows.lookup_below_ne_file hTree⟩
  · cases hName : location root name with
    | error e => exact ⟨e, by rw [encrypt, hName]⟩
    | ok path => exact encrypt_of_no_key (fun stored => hNone path stored hName) root name plain entropy

end Entries

end VaultSync
