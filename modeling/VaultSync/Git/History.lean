import VaultSync.Git.Tree
/-!
Commits. Each is a revision together with the commits that it was made on, so that a commit is the root of a
graph with all that led to it. One commit is an ancestor of another when some way through that graph leads
to it.
-/

namespace VaultSync.Git

/-- Who wrote or recorded a revision. -/
structure Person where
  name : String
  email : String
deriving DecidableEq

namespace Person

/-- Characters that are dropped at both ends of a name. -/
def isEdge (c : Char) : Bool :=
  c.toNat ≤ 32 || ".,:;<>\"\\'".toList.contains c

/-- A name without what is dropped at its ends. -/
def trim (text : String) : String :=
  let cs := text.toList.dropWhile isEdge
  String.ofList (cs.reverse.dropWhile isEdge).reverse

/-- Characters that no name may hold. -/
def isForbidden (c : Char) : Bool :=
  c = '<' || c = '>' || c = '\x00'

/-- A person of a name and an address, neither of them empty. -/
def ofParts? (name email : String) : Option Person :=
  if (name.toList ++ email.toList).any isForbidden then none
  else if trim name = "" ∨ trim email = "" then none
  else some ⟨trim name, trim email⟩

def text (person : Person) : String :=
  person.name ++ " <" ++ person.email ++ ">"

end Person

/-- A snapshot with who made it and why. -/
structure Revision where
  tree : Tree
  author : Person
  committer : Person
  message : String
deriving DecidableEq

namespace Revision

def isInlineBlank (c : Char) : Bool :=
  c = ' ' || c = '\t' || c = '\x0b' || c = '\x0c' || c = '\r'

def isBlank (c : Char) : Bool :=
  c = '\n' || isInlineBlank c

/-- The first paragraph of a message. It ends before a line that is blank. -/
def paragraph : List Char → List Char
  | [] => []
  | c :: rest =>
    if c = '\n' then
      match rest.dropWhile isInlineBlank with
      | [] => []
      | next :: _ => if next = '\n' then [] else c :: paragraph rest
    else c :: paragraph rest

/-- Words on one line: blanks that hold a line break become one space, and those at the end go. -/
def unbreak (blanks : List Char) : List Char → List Char
  | [] => []
  | c :: rest =>
    if isBlank c then unbreak (blanks ++ [c]) rest
    else (if blanks.contains '\n' then [' '] else blanks) ++ c :: unbreak [] rest

def summary (revision : Revision) : String :=
  String.ofList (unbreak [] (paragraph revision.message.toList))

/-- A revision. Line breaks in front of its message do not count. -/
def record (tree : Tree) (author committer : Person) (message : String) : Revision :=
  ⟨tree, author, committer, String.ofList (message.toList.dropWhile (· = '\n'))⟩

end Revision

/-- A revision together with the commits that it was made on: none for a first one, several for a merge. The
first of them is the one that its branch was at. -/
inductive Commit where
  | mk (revision : Revision) (parents : List Commit)

namespace Commit

def revision : Commit → Revision
  | mk revision _ => revision

def parents : Commit → List Commit
  | mk _ parents => parents

mutual

def decideEq : (a b : Commit) → Decidable (a = b)
  | mk revision parents, mk revision' parents' =>
    if hRevision : revision = revision' then
      match decideAllEq parents parents' with
      | isTrue hParents => isTrue (hRevision ▸ hParents ▸ rfl)
      | isFalse hParents => isFalse fun h => hParents (mk.inj h).2
    else isFalse fun h => hRevision (mk.inj h).1

def decideAllEq : (as bs : List Commit) → Decidable (as = bs)
  | [], [] => isTrue rfl
  | [], _ :: _ => isFalse nofun
  | _ :: _, [] => isFalse nofun
  | a :: as, b :: bs =>
    match decideEq a b with
    | isTrue hHead =>
      match decideAllEq as bs with
      | isTrue hTail => isTrue (hHead ▸ hTail ▸ rfl)
      | isFalse hTail => isFalse fun h => hTail (List.cons.inj h).2
    | isFalse hHead => isFalse fun h => hHead (List.cons.inj h).1

end

instance : DecidableEq Commit := decideEq

def tree (commit : Commit) : Tree :=
  commit.revision.tree

/-- The revisions of a branch, newest first. Of a merge only the commit that the branch was at is followed.
-/
def history : Commit → List Revision
  | mk revision [] => [revision]
  | mk revision (parent :: _) => revision :: history parent

def parent? (commit : Commit) : Option Commit :=
  commit.parents.head?

/-- A new commit on top of one, or the first one. -/
def on (parent : Option Commit) (revision : Revision) : Commit :=
  ⟨revision, parent.toList⟩

mutual

/-- A commit and all that come before it, along each of its parents. A commit is listed as often as there
are ways that lead to it. -/
def ancestors : Commit → List Commit
  | mk revision parents => mk revision parents :: ancestorsOfAll parents

def ancestorsOfAll : List Commit → List Commit
  | [] => []
  | commit :: rest => ancestors commit ++ ancestorsOfAll rest

end

/-- Whether a commit is another one or comes before it. -/
def isAncestorOf (commit other : Commit) : Bool :=
  other.ancestors.contains commit

/-- The commits that a branch has and a base does not, each behind those that it was made on. Merges are left
out, since they are no change of one commit. -/
def ahead (branch base : Commit) : List Commit :=
  branch.ancestors.reverse.eraseDups.filter fun commit =>
    !commit.isAncestorOf base && commit.parents.length ≤ 1

end Commit

/-- The files of a commit, none before the first one. -/
def treeOf (commit : Option Commit) : Tree :=
  (commit.map Commit.tree).getD .empty

end VaultSync.Git
