import Mathlib.Data.List.Basic
import VaultSync.Keys.Store
import VaultSync.Proofs.Files.Entries

/-! What a directory lists as key files. Directories and files that go by another extension are passed over,
so they may come and go without a key being gained or lost. -/
namespace VaultSync.KeyStore

open Files

variable {store : KeyStore} {files : Files} {loc dir : Location}

/-! ### Key files and others -/

/-- The key file that an entry of a directory is. -/
def keyFile? : String × Node → Option (String × ByteArray)
  | (name, .file content _) => if canHandle name then some (name, content) else none
  | (_, .directory) => none

/-- An entry of a directory that is no key file: a directory, or a file that goes by another extension. -/
def Foreign (child : String × Node) : Prop :=
  child.2 = .directory ∨
    ∀ ext, Path.extension? child.1 = some ext → Text.eqIgnoreAsciiCase ext fileExtension = false

/-- A foreign entry of the directory is not read as a key. -/
theorem keyFile?_of_foreign {child : String × Node} (h : Foreign child) : keyFile? child = none := by
  obtain ⟨name, node⟩ := child
  cases node with
  | directory => rfl
  | file content mode =>
      rcases h with hDir | hOther
      · cases hDir
      · rw [keyFile?, canHandle]
        cases hExt : Path.extension? name with
        | none => rfl
        | some ext => simp [hOther ext hExt]

/-- Two listings that differ in foreign entries only. -/
inductive Alike : List (String × Node) → List (String × Node) → Prop where
  | nil : Alike [] []
  | both (child : String × Node) {left right : List (String × Node)} (rest : Alike left right) :
      Alike (child :: left) (child :: right)
  | left {child : String × Node} (hForeign : Foreign child) {left right : List (String × Node)}
      (rest : Alike left right) : Alike (child :: left) right
  | right {child : String × Node} (hForeign : Foreign child) {left right : List (String × Node)}
      (rest : Alike left right) : Alike left (child :: right)

/-- Such listings have the same key files, in the same order. -/
theorem Alike.filterMap_eq {left right : List (String × Node)} (h : Alike left right) :
    left.filterMap keyFile? = right.filterMap keyFile? := by
  induction h with
  | nil => rfl
  | both child _ ih => rw [List.filterMap_cons, List.filterMap_cons, ih]
  | left hForeign _ ih => rw [List.filterMap_cons, keyFile?_of_foreign hForeign, ih]
  | right hForeign _ ih => rw [List.filterMap_cons, keyFile?_of_foreign hForeign, ih]

/-! ### Listings -/

/-- The key files that lie directly in a directory. -/
def listed (dir : Location) (files : Files) : List (String × ByteArray) :=
  (files.children dir).filterMap keyFile?

/-- The key files of a directory are those listed at its location. -/
theorem keyFiles_eq (h : files.resolve store.dir = .ok dir) :
    store.keyFiles files = .ok (listed dir files) := by
  rw [keyFiles, h]
  rfl

/-- A node that is no key file and takes the place of none changes no key file. -/
theorem listed_insert {node : Node}
    (hNew : ∀ name, loc = dir ++ [name] → keyFile? (name, node) = none ∧
      ∀ child ∈ files.children dir, child.1 = name → keyFile? child = none) :
    listed dir (files.insert loc node) = listed dir files := by
  by_cases hIn : ∃ name, loc = dir ++ [name]
  · obtain ⟨name, rfl⟩ := hIn
    obtain ⟨hNode, hOld⟩ := hNew name rfl
    have hNone : [(name, node)].filterMap keyFile? = [] := by
      rw [List.filterMap_cons, hNode, List.filterMap_nil]
    rw [listed, children_insert, List.filterMap_append, hNone, List.append_nil, List.filterMap_filter]
    refine List.filterMap_congr fun child hChild => ?_
    by_cases hName : child.1 = name
    · simp [hName, hOld child hChild hName]
    · simp [hName]
  · rw [listed, children_insert_of_ne _ _ fun name hName => hIn ⟨name, hName⟩]
    rfl

theorem listed_insert_directory (h : files.lookup loc = none) :
    listed dir (files.insert loc .directory) = listed dir files := by
  refine listed_insert ?_
  rintro name rfl
  refine ⟨rfl, fun child hChild hName => ?_⟩
  rw [← lookup_children, List.lookup_eq_none_iff] at h
  exact absurd hName.symm (by simpa using h child hChild)

/-- A file that is not named for a key is no key file. -/
theorem listed_insert_other {content : ByteArray} {mode : Nat}
    (h : ∀ name, canHandle name = true → loc ≠ dir ++ [name]) :
    listed dir (files.insert loc (.file content mode)) = listed dir files := by
  refine listed_insert ?_
  rintro name rfl
  have hOther : canHandle name ≠ true := fun hHandled => h name hHandled rfl
  refine ⟨by rw [keyFile?, if_neg hOther], ?_⟩
  rintro ⟨_, node⟩ - rfl
  cases node with
  | directory => rfl
  | file content mode => rw [keyFile?, if_neg hOther]

/-- Making the directories on a way lists nothing new. -/
theorem listed_makeAlong (dir : Location) (files : Files) (loc : Location) (parts : List String) :
    listed dir (files.makeAlong loc parts).2 = listed dir files := by
  induction parts generalizing files loc with
  | nil => rfl
  | cons part parts ih =>
      rw [makeAlong]
      split
      · exact ih files loc
      · split
        · exact ih files loc.dropLast
        · split
          · exact ih files (loc ++ [part])
          · rfl
          · rename_i hMissing
            split
            · rfl
            · rw [ih, listed_insert_directory hMissing]

/-- Making directories makes no key file. -/
theorem listed_createParents (dir : Location) (files : Files) (path : String) :
    listed dir (files.createParents path).2 = listed dir files := by
  rw [createParents]
  split
  · rw [createDirAll]
    split
    · rfl
    · split
      · rfl
      · exact listed_makeAlong dir files _ _
  · rfl

end VaultSync.KeyStore
