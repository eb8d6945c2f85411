import VaultSync.Files

/-! What lies where after an entry was put down or taken away. A change of one location shows at that
location only, and a directory gains or loses the one name that the location ends in. -/
namespace VaultSync.Files

/-- Keeping some keys of a list of pairs keeps what is found under them. -/
theorem lookup_filter_key {α β : Type} [BEq α] [LawfulBEq α] (keep : α → Bool) (entries : List (α × β))
    (key : α) :
    (entries.filter fun e => keep e.1).lookup key = if keep key then entries.lookup key else none := by
  induction entries with
  | nil => simp
  | cons e entries ih =>
      cases hKeep : keep e.1 with
      | false =>
          rw [List.filter_cons_of_neg (by simp [hKeep]), ih, List.lookup_cons]
          by_cases hKey : key = e.1
          · simp [hKey, hKeep]
          · rw [beq_false_of_ne hKey]
      | true =>
          rw [List.filter_cons_of_pos (by simp [hKeep]), List.lookup_cons, List.lookup_cons, ih]
          by_cases hKey : key = e.1
          · simp [hKey, hKeep]
          · rw [beq_false_of_ne hKey]

variable (files : Files) (loc : Location) (node : Node)

theorem lookup_of_ne_root {files : Files} {loc : Location} (h : loc ≠ []) :
    files.lookup loc = files.entries.lookup loc := if_neg h

/-- A node that is put at a location is found there, and the others stay. -/
theorem lookup_insert {loc : Location} (h : loc ≠ []) (other : Location) :
    (files.insert loc node).lookup other = if other = loc then some node else files.lookup other := by
  by_cases hRoot : other = []
  · subst hRoot
    rw [if_neg h.symm]
    rfl
  · rw [lookup_of_ne_root hRoot, lookup_of_ne_root hRoot, insert, List.lookup_append,
      lookup_filter_key (fun l => decide (l ≠ loc))]
    by_cases hOther : other = loc
    · simp [hOther]
    · simp [hOther, List.lookup_cons, beq_false_of_ne hOther]

/-- Putting a node down shows nowhere else, not even where the root is put. -/
theorem lookup_insert_of_ne {loc other : Location} (h : other ≠ loc) :
    (files.insert loc node).lookup other = files.lookup other := by
  by_cases hLoc : loc = []
  · subst hLoc
    rw [lookup_of_ne_root h, lookup_of_ne_root h, insert, List.lookup_append,
      lookup_filter_key (fun l => decide (l ≠ []))]
    simp [h, List.lookup_cons, beq_false_of_ne h]
  · rw [lookup_insert files node hLoc, if_neg h]

/-- Directories stay when a node is put where none was. -/
theorem lookup_insert_directory {loc other : Location} (hNode : files.lookup loc ≠ some .directory)
    (hDir : files.lookup other = some .directory) : (files.insert loc node).lookup other = some .directory := by
  rw [lookup_insert_of_ne, hDir]
  rintro rfl
  exact hNode hDir

/-- A location that is erased is empty, and the others stay. -/
theorem lookup_erase {loc : Location} (h : loc ≠ []) (other : Location) :
    (files.erase loc).lookup other = if other = loc then none else files.lookup other := by
  by_cases hRoot : other = []
  · subst hRoot
    rw [if_neg h.symm]
    rfl
  · rw [lookup_of_ne_root hRoot, lookup_of_ne_root hRoot, erase,
      lookup_filter_key (fun l => decide (l ≠ loc))]
    by_cases hOther : other = loc <;> simp [hOther]

/-- A location that is removed is empty with all that lies below. -/
theorem lookup_removeBelow (loc : Location) {other : Location} (h : other ≠ []) :
    (files.removeBelow loc).lookup other = if loc <+: other then none else files.lookup other := by
  rw [lookup_of_ne_root h, lookup_of_ne_root h, removeBelow,
    lookup_filter_key (fun l => !loc.isPrefixOf l)]
  simp only [← List.isPrefixOf_iff_prefix]
  cases loc.isPrefixOf other <;> rfl

/-! ### Directories -/

/-- The name and the node that an entry gives to a directory, if it lies directly in it. -/
def child? (loc : Location) (e : Location × Node) : Option (String × Node) :=
  match e.1.getLast? with
  | some name => if e.1.dropLast = loc then some (name, e.2) else none
  | none => none

theorem children_eq : files.children loc = files.entries.filterMap (child? loc) := rfl

/-- An entry is a child when its location goes one name beyond. -/
theorem child?_eq_some {loc : Location} {e : Location × Node} {child : String × Node} :
    child? loc e = some child ↔ e = (loc ++ [child.1], child.2) := by
  obtain ⟨l, n⟩ := e
  obtain ⟨name, node⟩ := child
  rcases List.eq_nil_or_concat l with rfl | ⟨l, last, rfl⟩
  · simp [child?]
  · by_cases hLoc : l = loc <;> simp [child?, hLoc]

/-- What a directory has under a name is what lies at the location below it. -/
theorem lookup_children {loc : Location} (name : String) :
    (files.children loc).lookup name = files.lookup (loc ++ [name]) := by
  rw [lookup_of_ne_root (by simp), children_eq]
  induction files.entries with
  | nil => rfl
  | cons e entries ih =>
      rw [List.filterMap_cons, List.lookup_cons]
      cases hChild : child? loc e with
      | none =>
          have hNe : loc ++ [name] ≠ e.1 := by
            intro h
            have : child? loc e = some (name, e.2) := child?_eq_some.2 (by rw [h])
            simp [hChild] at this
          rw [beq_false_of_ne hNe, ih]
      | some child =>
          obtain rfl := child?_eq_some.1 hChild
          rw [List.lookup_cons, ih]
          by_cases hName : name = child.1
          · simp [hName]
          · simp [beq_false_of_ne hName]

/-- Erasing a file takes its name off the listing. -/
theorem children_erase (name : String) :
    (files.erase (loc ++ [name])).children loc = (files.children loc).filter (·.1 ≠ name) := by
  rw [children_eq, children_eq, erase]
  -- erasing filters the entries and the listing alike, entry by entry
  induction files.entries with
  | nil => rfl
  | cons e entries ih =>
      rw [List.filterMap_cons]
      cases hChild : child? loc e with
      | none =>
          have hNe : e.1 ≠ loc ++ [name] := by
            intro h
            have : child? loc e = some (name, e.2) := child?_eq_some.2 (by rw [← h])
            simp [hChild] at this
          rw [List.filter_cons_of_pos (by simpa using hNe), List.filterMap_cons, hChild]
          exact ih
      | some child =>
          have hEntry := child?_eq_some.1 hChild
          by_cases hName : child.1 = name
          · rw [List.filter_cons_of_neg (by simp [hEntry, hName]),
              List.filter_cons_of_neg (by simp [hName])]
            exact ih
          · rw [List.filter_cons_of_pos (by simp [hEntry, hName]),
              List.filter_cons_of_pos (by simp [hName]), List.filterMap_cons, hChild]
            exact congrArg (child :: ·) ih

/-- A file that is put comes last in the listing. -/
theorem children_insert (name : String) :
    (files.insert (loc ++ [name]) node).children loc =
      (files.children loc).filter (·.1 ≠ name) ++ [(name, node)] := by
  have hNew : child? loc (loc ++ [name], node) = some (name, node) := child?_eq_some.2 rfl
  rw [← children_erase, children_eq, insert, List.filterMap_append, List.filterMap_cons, hNew]
  rfl

/-- A location that does not lie directly in a directory is none of its entries. -/
theorem children_insert_of_ne {loc other : Location} (h : ∀ name, other ≠ loc ++ [name]) :
    (files.insert other node).children loc = files.children loc := by
  have hNone (n : Node) : child? loc (other, n) = none := by
    cases hChild : child? loc (other, n) with
    | none => rfl
    | some child => exact absurd (congrArg Prod.fst (child?_eq_some.1 hChild)) (h child.1)
  rw [children_eq, children_eq, insert, List.filterMap_append, List.filterMap_cons, hNone,
    List.filterMap_nil, List.append_nil]
  induction files.entries with
  | nil => rfl
  | cons e entries ih =>
      obtain ⟨l, n⟩ := e
      by_cases hEntry : l = other
      · subst hEntry
        rw [List.filter_cons_of_neg (by simp), List.filterMap_cons, ih, hNone]
      · rw [List.filter_cons_of_pos (by simpa using hEntry), List.filterMap_cons,
          List.filterMap_cons, ih]

end VaultSync.Files
