import VaultSync.Git.History
import VaultSync.Text.Blank
/-!
Names of branches and of what is known about the branches of a remote, and which names are taken.
-/

namespace VaultSync.Git

/-- The name of something that points at a commit. -/
inductive RefName
  | branch (name : String)
  /-- A branch as it was last seen on a remote. -/
  | tracking (remote branch : String)
deriving DecidableEq, Repr

namespace RefName

def text : RefName → String
  | .branch name => "refs/heads/" ++ name
  | .tracking remote name => "refs/remotes/" ++ remote ++ "/" ++ name

def path (name : RefName) : TreePath :=
  Text.splitOnChar '/' name.text

def isAllowed (c : Char) : Bool :=
  32 < c.toNat && c.toNat ≠ 127 && !"~^:?*[\\".toList.contains c

/-- Whether two characters follow each other in a text. -/
def hasPair (a b : Char) : List Char → Bool
  | c :: d :: rest => (c = a && d = b) || hasPair a b (d :: rest)
  | _ => false

/-- Whether a part between slashes is fit for a name. -/
def isPart (part : String) : Bool :=
  part ≠ "" && part.toList.head? ≠ some '.' && !part.endsWith ".lock"

def isWellFormed (text : String) : Bool :=
  let cs := text.toList
  cs.all isAllowed && (Text.splitOnChar '/' text).all isPart && !hasPair '.' '.' cs &&
    !hasPair '@' '\x7b' cs && cs.getLast? ≠ some '.'

def isBranchName (name : String) : Bool :=
  name ≠ "HEAD" && name.toList.head? ≠ some '-' && isWellFormed (branch name).text

end RefName

/-- What names point at, each name once. -/
abbrev Refs := List (RefName × Commit)

namespace Refs

def get? (refs : Refs) (name : RefName) : Option Commit :=
  refs.lookup name

/-- What the reference with a full name points at. -/
def pointedAt? (refs : Refs) (full : String) : Option Commit :=
  ((refs.map (·.1)).find? (·.text = full)).bind refs.get?

def set (refs : Refs) (name : RefName) (commit : Commit) : Refs :=
  refs.filter (·.1 ≠ name) ++ [(name, commit)]

/-- Whether a name cannot stand beside the others: one would have to be both a file and a directory. -/
def clashes (refs : Refs) (name : RefName) : Bool :=
  refs.any fun ref => ref.1.path.isBelow name.path || name.path.isBelow ref.1.path

theorem get?_set (refs : Refs) (name other : RefName) (commit : Commit) :
    (refs.set name commit).get? other = if other = name then some commit else refs.get? other := by
  unfold get? set
  induction refs with
  | nil =>
    by_cases h : other = name
    · simp [h]
    · have hb : (other == name) = false := by simpa using h
      simp [List.lookup_cons, hb, h]
  | cons ref rest ih =>
    obtain ⟨key, value⟩ := ref
    by_cases hr : key = name
    · subst hr
      rw [List.filter_cons_of_neg (by simp), ih]
      by_cases h : other = key
      · simp [h]
      · have hb : (other == key) = false := by simpa using h
        simp [h, List.lookup_cons, hb]
    · rw [List.filter_cons_of_pos (by simpa using hr), List.cons_append, List.lookup_cons,
        List.lookup_cons, ih]
      by_cases h : other = key
      · subst h
        simp [hr]
      · have hb : (other == key) = false := by simpa using h
        simp [hb]

end Refs

end VaultSync.Git
