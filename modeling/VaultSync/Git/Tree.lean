import VaultSync.Files
/-!
Snapshots of files. A tree holds the content of each path once, in the order of the paths, so that two
trees are equal exactly when every path has the same content in both (`Tree.ext_get?`).
-/

namespace VaultSync.Git

/-- The names from the root of a tree down to a file. -/
abbrev TreePath := List String

def TreePath.text (path : TreePath) : String :=
  String.intercalate "/" path

def TreePath.isBelow (path dir : TreePath) : Bool :=
  dir.isPrefixOf path && dir.length < path.length

/-- Puts a path into its place among sorted ones. -/
def insertPath (path : TreePath) : List TreePath → List TreePath
  | [] => [path]
  | head :: rest =>
    if path < head then path :: head :: rest
    else if path = head then head :: rest
    else head :: insertPath path rest

def sortPaths (paths : List TreePath) : List TreePath :=
  paths.foldr insertPath []

theorem mem_insertPath {path p : TreePath} {paths : List TreePath} :
    p ∈ insertPath path paths ↔ p = path ∨ p ∈ paths := by
  induction paths with
  | nil => simp [insertPath]
  | cons head rest ih =>
    unfold insertPath
    split
    · simp
    · split
      · rename_i h
        subst h
        simp
      · simp only [List.mem_cons, ih]
        constructor
        · rintro (h | h | h) <;> simp [h]
        · rintro (h | h | h) <;> simp [h]

theorem mem_sortPaths {p : TreePath} {paths : List TreePath} : p ∈ sortPaths paths ↔ p ∈ paths := by
  induction paths with
  | nil => simp [sortPaths]
  | cons head rest ih =>
    have h : sortPaths (head :: rest) = insertPath head (sortPaths rest) := rfl
    simp [h, mem_insertPath, ih]

theorem pairwise_insertPath {path : TreePath} {paths : List TreePath}
    (h : paths.Pairwise (· < ·)) : (insertPath path paths).Pairwise (· < ·) := by
  induction paths with
  | nil => simp [insertPath]
  | cons head rest ih =>
    rw [List.pairwise_cons] at h
    unfold insertPath
    split
    · rename_i hlt
      refine List.pairwise_cons.2 ⟨fun p hp => ?_, List.pairwise_cons.2 h⟩
      rcases List.mem_cons.1 hp with rfl | hp
      · exact hlt
      · exact List.lt_trans hlt (h.1 p hp)
    · split
      · exact List.pairwise_cons.2 h
      · rename_i hnlt hne
        refine List.pairwise_cons.2 ⟨fun p hp => ?_, ih h.2⟩
        rcases mem_insertPath.1 hp with rfl | hp
        · rcases Std.lt_trichotomy p head with hlt | heq | hgt
          · exact absurd hlt hnlt
          · exact absurd heq hne
          · exact hgt
        · exact h.1 p hp

theorem pairwise_sortPaths (paths : List TreePath) : (sortPaths paths).Pairwise (· < ·) := by
  induction paths with
  | nil => simp [sortPaths]
  | cons head rest ih => exact pairwise_insertPath ih

/-- The content of files by path. -/
structure Tree where
  entries : List (TreePath × ByteArray)
  sorted : entries.Pairwise fun a b => a.1 < b.1
deriving DecidableEq

namespace Tree

def empty : Tree := ⟨[], List.Pairwise.nil⟩

def get? (tree : Tree) (path : TreePath) : Option ByteArray :=
  tree.entries.lookup path

def paths (tree : Tree) : List TreePath :=
  tree.entries.map (·.1)

/-- The tree that has at each given path what a function says. -/
def tabulate (paths : List TreePath) (content : TreePath → Option ByteArray) : Tree where
  entries := (sortPaths paths).filterMap fun p => (content p).map (p, ·)
  sorted := by
    refine List.Pairwise.filterMap _ (fun a b hab x hx y hy => ?_) (pairwise_sortPaths paths)
    obtain ⟨_, _, rfl⟩ := Option.map_eq_some_iff.1 hx
    obtain ⟨_, _, rfl⟩ := Option.map_eq_some_iff.1 hy
    exact hab

def hasBelow (tree : Tree) (dir : TreePath) : Bool :=
  tree.paths.any (·.isBelow dir)

/-- Whether a file stands where the path needs a directory. -/
def blocks (tree : Tree) (path : TreePath) : Bool :=
  tree.paths.any path.isBelow

/-- Whether a file or a directory lies at a path. -/
def isTaken (tree : Tree) (path : TreePath) : Bool :=
  (tree.get? path).isSome || tree.hasBelow path

/-- The tree with a file at a path, in place of one that was there. -/
def put (tree : Tree) (path : TreePath) (content : ByteArray) : Tree :=
  tabulate (path :: tree.paths) fun p => if p = path then some content else tree.get? p

def unionPaths (trees : List Tree) : List TreePath :=
  sortPaths (trees.flatMap paths)

@[simp] theorem get?_empty (path : TreePath) : empty.get? path = none := rfl

private theorem lookup_filterMap {content : TreePath → Option ByteArray} {path : TreePath}
    (paths : List TreePath) :
    (paths.filterMap fun p => (content p).map (p, ·)).lookup path =
      if path ∈ paths then content path else none := by
  induction paths with
  | nil => simp
  | cons head rest ih =>
    cases hc : content head with
    | none =>
      simp only [List.filterMap_cons, hc, Option.map_none, ih, List.mem_cons]
      by_cases h : path = head
      · subst h
        simp [hc]
      · simp [h]
    | some c =>
      simp only [List.filterMap_cons, hc, Option.map_some, List.lookup_cons, List.mem_cons, ih]
      by_cases h : path = head
      · subst h
        simp [hc]
      · have hb : (path == head) = false := by simpa using h
        simp [hb, h]

theorem get?_tabulate (paths : List TreePath) (content : TreePath → Option ByteArray)
    (path : TreePath) :
    (tabulate paths content).get? path = if path ∈ paths then content path else none := by
  unfold get? tabulate
  rw [lookup_filterMap]
  simp [mem_sortPaths]

private theorem lookup_eq_none {entries : List (TreePath × ByteArray)} {path : TreePath}
    (h : ∀ e ∈ entries, path < e.1) : entries.lookup path = none := by
  rw [List.lookup_eq_none_iff]
  intro e he
  simpa using fun heq : path = e.1 => List.lt_irrefl _ (heq ▸ h e he)

private theorem ext_lookup {a b : List (TreePath × ByteArray)}
    (ha : a.Pairwise fun x y => x.1 < y.1) (hb : b.Pairwise fun x y => x.1 < y.1)
    (h : ∀ path, a.lookup path = b.lookup path) : a = b := by
  induction a generalizing b with
  | nil =>
    cases b with
    | nil => rfl
    | cons e rest => exact absurd (h e.1) (by rw [List.lookup_cons_self]; simp)
  | cons d a ih =>
    cases b with
    | nil => exact absurd (h d.1) (by rw [List.lookup_cons_self]; simp)
    | cons e b =>
      rw [List.pairwise_cons] at ha hb
      have hpath : d.1 = e.1 := by
        rcases Std.lt_trichotomy d.1 e.1 with hlt | heq | hgt
        · have hd := h d.1
          have hne : (d.1 == e.1) = false := by
            simpa using fun heq => List.lt_irrefl _ (heq ▸ hlt)
          rw [List.lookup_cons_self, List.lookup_cons, hne,
            lookup_eq_none fun x hx => List.lt_trans hlt (hb.1 x hx)] at hd
          simp at hd
        · exact heq
        · have he := h e.1
          have hne : (e.1 == d.1) = false := by
            simpa using fun heq => List.lt_irrefl _ (heq ▸ hgt)
          rw [List.lookup_cons_self, List.lookup_cons, hne,
            lookup_eq_none fun x hx => List.lt_trans hgt (ha.1 x hx)] at he
          simp at he
      have hcontent : d.2 = e.2 := by
        have hd := h d.1
        rw [List.lookup_cons_self, hpath, List.lookup_cons_self] at hd
        exact Option.some.inj hd
      have htail : a = b := by
        refine ih ha.2 hb.2 fun path => ?_
        by_cases hp : path = d.1
        · subst hp
          rw [lookup_eq_none ha.1, lookup_eq_none fun x hx => hpath ▸ hb.1 x hx]
        · have hd := h path
          have h₁ : (path == d.1) = false := by simpa using hp
          have h₂ : (path == e.1) = false := by simpa [← hpath] using hp
          rwa [List.lookup_cons, List.lookup_cons, h₁, h₂] at hd
      rw [htail, Prod.ext hpath hcontent]

/-- A tree is determined by the content of its paths. -/
theorem ext_get? {a b : Tree} (h : ∀ path, a.get? path = b.get? path) : a = b := by
  obtain ⟨a, ha⟩ := a
  obtain ⟨b, hb⟩ := b
  have : a = b := ext_lookup ha hb h
  subst this
  rfl

theorem mem_paths {tree : Tree} {path : TreePath} :
    path ∈ tree.paths ↔ tree.get? path ≠ none := by
  constructor
  · intro hp hn
    obtain ⟨e, he, rfl⟩ := List.mem_map.1 hp
    have := List.lookup_eq_none_iff.1 hn e he
    simp at this
  · intro hp
    by_cases h : path ∈ tree.paths
    · exact h
    · refine absurd (List.lookup_eq_none_iff.2 fun e he => ?_) hp
      simpa using fun heq : path = e.1 => h (List.mem_map.2 ⟨e, he, heq.symm⟩)

theorem mem_unionPaths {trees : List Tree} {path : TreePath} :
    path ∈ unionPaths trees ↔ ∃ tree ∈ trees, tree.get? path ≠ none := by
  simp [unionPaths, mem_sortPaths, mem_paths]

end Tree

end VaultSync.Git
