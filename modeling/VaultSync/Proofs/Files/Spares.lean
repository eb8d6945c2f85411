import VaultSync.Proofs.Files.Tree

/-! Changes that stay within an area. What was there outside of it is still there, file or directory, with
its content; what is new may lie anywhere. Each operation stays within the locations that its path leads
to, whether it succeeds or not. -/
namespace VaultSync.Files

/-- All that was there outside of an area is still there. -/
structure Spares (area : Location → Prop) (files files' : Files) : Prop where
  workDir : files'.workDir = files.workDir
  lookup : ∀ loc node, ¬ area loc → files.lookup loc = some node → files'.lookup loc = some node

/-- An area with all that lies at or below a location. -/
def Covers (area : Location → Prop) (root : Location) : Prop :=
  ∀ loc, root <+: loc → area loc

/-- An area covers what lies below what it covers. -/
theorem Covers.of_prefix {area : Location → Prop} {root loc : Location} (h : Covers area root)
    (hPrefix : root <+: loc) : Covers area loc :=
  fun other hOther => h other (hPrefix.trans hOther)

namespace Spares

variable {area : Location → Prop} {files files' files'' : Files} {loc : Location} {path : String}

theorem refl (area : Location → Prop) (files : Files) : Spares area files files :=
  ⟨rfl, fun _ _ _ hNode => hNode⟩

theorem trans (h : Spares area files files') (h' : Spares area files' files'') :
    Spares area files files'' :=
  ⟨h'.workDir.trans h.workDir,
    fun loc node hArea hNode => h'.lookup loc node hArea (h.lookup loc node hArea hNode)⟩

/-- A path leads to where it led. -/
theorem destination_eq (h : Spares area files files') (path : String) :
    files'.destination path = files.destination path :=
  destination_congr h.workDir path

/-- A chain of changes stays within an area if each of them does. -/
theorem foldl {α : Type} {change : Files → α → Files}
    (hChange : ∀ files a, Spares area files (change files a)) (steps : List α) (files : Files) :
    Spares area files (steps.foldl change files) := by
  induction steps generalizing files with
  | nil => exact refl area files
  | cons a steps ih => exact (hChange files a).trans (ih _)

/-! ### Single locations -/

theorem insert (files : Files) (node : Node) (hArea : area loc) :
    Spares area files (files.insert loc node) := by
  refine ⟨rfl, fun other node' hOther hNode => ?_⟩
  rw [lookup_insert_of_ne, hNode]
  rintro rfl
  exact hOther hArea

/-- A directory that is made where nothing was takes nothing away. -/
theorem insert_missing (files : Files) (node : Node) (hMissing : files.lookup loc = none) :
    Spares area files (files.insert loc node) := by
  refine ⟨rfl, fun other node' _ hNode => ?_⟩
  rw [lookup_insert_of_ne, hNode]
  rintro rfl
  rw [hMissing] at hNode
  cases hNode

theorem removeBelow (files : Files) (hArea : Covers area loc) :
    Spares area files (files.removeBelow loc) := by
  refine ⟨rfl, fun other node hOther hNode => ?_⟩
  by_cases hRoot : other = []
  · subst hRoot
    exact hNode
  · rw [lookup_removeBelow _ _ hRoot, if_neg fun hPrefix => hOther (hArea other hPrefix), hNode]

/-! ### Operations on paths -/

/-- Directories made on a way spare every file. -/
theorem makeAlong (files : Files) (loc : Location) (parts : List String) :
    Spares area files (files.makeAlong loc parts).2 := by
  induction parts generalizing files loc with
  | nil => exact refl area files
  | cons part parts ih =>
      rw [Files.makeAlong]
      split
      · exact ih files loc
      · split
        · exact ih files _
        · split
          · exact ih files _
          · exact refl area files
          · rename_i hMissing
            split
            · exact refl area files
            · exact (insert_missing files .directory hMissing).trans (ih _ _)

theorem createDirAll (files : Files) (path : String) : Spares area files (files.createDirAll path).2 := by
  rw [Files.createDirAll]
  split
  · exact refl area files
  · split
    · exact refl area files
    · exact makeAlong files _ _

theorem createParents (files : Files) (path : String) :
    Spares area files (files.createParents path).2 := by
  rw [Files.createParents]
  split
  · exact createDirAll files _
  · exact refl area files

theorem write {content : ByteArray} (h : files.write path content = .ok files')
    (hArea : area (files.destination path)) : Spares area files files' := by
  obtain ⟨loc, mode, hPath, -, rfl⟩ := write_eq_ok h
  exact insert files _ (destination_of_resolve hPath ▸ hArea)

theorem replace {content : ByteArray} {mode : Nat} (h : files.replace path content mode = .ok files')
    (hArea : area (files.destination path)) : Spares area files files' := by
  obtain ⟨loc, hPath, -, rfl⟩ := replace_eq_ok h
  exact insert files _ (destination_of_resolve hPath ▸ hArea)

theorem setMode {mode : Nat} (h : files.setMode path mode = .ok files')
    (hArea : area (files.destination path)) : Spares area files files' := by
  obtain ⟨loc, hPath, hNode⟩ := bind_eq_ok.1 h
  split at hNode
  · rw [← Except.ok.inj hNode]
    exact refl area files
  · rw [← Except.ok.inj hNode]
    exact insert files _ (destination_of_resolve hPath ▸ hArea)
  · cases hNode

/-- Removing a tree stays within it, and one that cannot be removed stays. -/
theorem removeDirAll (files : Files) (hArea : Covers area (files.destination path)) :
    Spares area files ((files.removeDirAll path).toOption.getD files) := by
  cases hRemoved : files.removeDirAll path with
  | error e => exact refl area files
  | ok files' =>
      obtain ⟨loc, hPath, -, rfl⟩ := removeDirAll_eq_ok hRemoved
      exact removeBelow files (destination_of_resolve hPath ▸ hArea)

end Spares

/-! ### Places that are vacant -/

/-- What lies below a location of a tree lies below an entry of its directory. -/
theorem WellFormed.exists_child {files : Files} (h : files.WellFormed) {loc : Location} {node : Node}
    {names : List String} (hNames : names ≠ []) (hNode : files.lookup (loc ++ names) = some node) :
    files.lookup loc = some .directory ∧ files.children loc ≠ [] := by
  induction names generalizing loc with
  | nil => exact absurd rfl hNames
  | cons name names ih =>
      obtain ⟨first, hFirst⟩ : ∃ first, files.lookup (loc ++ [name]) = some first := by
        cases names with
        | nil => exact ⟨node, hNode⟩
        | cons => exact ⟨_, (ih (List.cons_ne_nil _ _) (by simpa using hNode)).1⟩
      have hParent := h.parent hFirst
      rw [List.dropLast_concat] at hParent
      exact ⟨hParent, List.ne_nil_of_mem (h.mem_children_iff.2 hFirst)⟩

end VaultSync.Files
