import VaultSync.Bytes
/-!
Merging two changes of one text. Each side is aligned with the text that both changed; lines that both
kept divide the texts into regions, and a region is settled when only one side changed it or both did
the same. Where they differ, the conflict is narrowed to the lines in which the sides differ.
-/

namespace VaultSync.Git.LineMerge

/-! ### Alignment -/

/-- The lengths of the longest common parts of a list starting with `a` and each end of another one,
given those of the list without `a`. -/
def commonRow {α : Type} [DecidableEq α] (a : α) : List α → List Nat → List Nat
  | [], _ => [0]
  | b :: bs, below =>
    let row := commonRow a bs below.tail
    (if a = b then below.tail.headD 0 + 1 else max (below.headD 0) (row.headD 0)) :: row

/-- The rows for each end of the first list. -/
def commonRows {α : Type} [DecidableEq α] (as bs : List α) : List (List Nat) :=
  as.foldr (fun a rows => commonRow a bs (rows.headD []) :: rows) [List.replicate (bs.length + 1) 0]

/-- What became of one element of a list: what was put in front of it, and whether it was kept. -/
structure Slot (α : Type) where
  before : List α
  kept : Bool

/-- What became of a list: a slot for each element, and what was put at the end. -/
structure Alignment (α : Type) where
  slots : List (Slot α)
  after : List α

def Alignment.push {α : Type} (a : α) : Alignment α → Alignment α
  | ⟨[], after⟩ => ⟨[], a :: after⟩
  | ⟨slot :: slots, after⟩ => ⟨⟨a :: slot.before, slot.kept⟩ :: slots, after⟩

/-- Aligns a list with one that it was changed into, so that as much as possible is kept. -/
def align {α : Type} [DecidableEq α] : List α → List α → List (List Nat) → Alignment α
  | [], bs, _ => ⟨[], bs⟩
  | as@(_ :: _), [], _ => ⟨as.map fun _ => ⟨[], false⟩, []⟩
  | a :: as, b :: bs, rows =>
    if a = b then
      let rest := align as bs (rows.tail.map List.tail)
      ⟨⟨[], true⟩ :: rest.slots, rest.after⟩
    else if (rows.headD []).tail.headD 0 ≤ (rows.tail.headD []).headD 0 then
      let rest := align as (b :: bs) rows.tail
      ⟨⟨[], false⟩ :: rest.slots, rest.after⟩
    else (align (a :: as) bs (rows.map List.tail)).push b
termination_by as bs _ => as.length + bs.length

/-- The alignment of a list with what it was changed into. -/
def alignment {α : Type} [DecidableEq α] (old new : List α) : Alignment α :=
  align old new (commonRows old new)

/-! ### Regions -/

/-- A part of a merged text. -/
inductive Chunk (α : Type)
  /-- Lines that the sides agree on. -/
  | same (lines : List α)
  /-- Lines that one side changed. -/
  | taken (lines : List α)
  | conflict (ours theirs : List α)
deriving DecidableEq

def settle {α : Type} [DecidableEq α] (base ours theirs : List α) : Chunk α :=
  if ours = theirs then .same ours
  else if ours = base then .taken theirs
  else if theirs = base then .taken ours
  else .conflict ours theirs

/-- Walks along a text with what became of it on both sides. The first three lists are the open
region. -/
def regions {α : Type} [DecidableEq α] (base ours theirs : List α) :
    List α → Alignment α → Alignment α → List (Chunk α)
  | line :: lines, ⟨mine :: mines, myEnd⟩, ⟨other :: others, otherEnd⟩ =>
    let ours := ours ++ mine.before
    let theirs := theirs ++ other.before
    if mine.kept && other.kept then
      settle base ours theirs :: .same [line] ::
        regions [] [] [] lines ⟨mines, myEnd⟩ ⟨others, otherEnd⟩
    else
      regions (base ++ [line]) (if mine.kept then ours ++ [line] else ours)
        (if other.kept then theirs ++ [line] else theirs) lines ⟨mines, myEnd⟩ ⟨others, otherEnd⟩
  | _, mine, other => [settle base (ours ++ mine.after) (theirs ++ other.after)]

/-- Narrows a conflict to the lines in which its sides differ. A side without lines cannot be narrowed
down. -/
def narrow {α : Type} [DecidableEq α] : Chunk α → List (Chunk α)
  | .conflict [] theirs => [.conflict [] theirs]
  | .conflict ours [] => [.conflict ours []]
  | .conflict ours theirs => differences [] [] ours (alignment ours theirs)
  | chunk => [chunk]
where
  /-- The differing and the common parts of two lists; the first two are the open difference. -/
  differences (ours theirs : List α) : List α → Alignment α → List (Chunk α)
    | line :: lines, ⟨slot :: slots, after⟩ =>
      let theirs := theirs ++ slot.before
      if slot.kept then
        close ours theirs ++ .same [line] :: differences [] [] lines ⟨slots, after⟩
      else differences (ours ++ [line]) theirs lines ⟨slots, after⟩
    | _, alignment => close ours (theirs ++ alignment.after)
  /-- A difference, if there is one. -/
  close (ours theirs : List α) : List (Chunk α) :=
    if ours.isEmpty && theirs.isEmpty then [] else [.conflict ours theirs]

/-- The number of agreed lines up to which two conflicts are shown as one. -/
def maxGap : Nat := 3

/-- Puts a chunk in front of others. Agreed lines are gathered, and conflicts that stand close to each
other become one. -/
def prepend {α : Type} : Chunk α → List (Chunk α) → List (Chunk α)
  | .same [], rest => rest
  | .same lines, .same more :: rest => .same (lines ++ more) :: rest
  | .conflict o t, .same lines :: .conflict o' t' :: rest =>
    if lines.length ≤ maxGap then .conflict (o ++ lines ++ o') (t ++ lines ++ t') :: rest
    else .conflict o t :: .same lines :: .conflict o' t' :: rest
  | .conflict o t, .conflict o' t' :: rest => .conflict (o ++ o') (t ++ t') :: rest
  | chunk, rest => chunk :: rest

def chunks {α : Type} [DecidableEq α] (base ours theirs : List α) : List (Chunk α) :=
  ((regions [] [] [] base (alignment base ours) (alignment base theirs)).flatMap narrow).foldr
    prepend []

/-! ### Texts -/

/-- A line with its line break, which only the last one may lack. -/
abbrev Line := List UInt8

def lines : List UInt8 → List Line
  | [] => []
  | b :: rest =>
    if b = 10 then [b] :: lines rest
    else match lines rest with
      | [] => [[b]]
      | line :: more => (b :: line) :: more

def ended (ls : List Line) : List UInt8 :=
  ls.flatMap fun line => if line.getLast? = some 10 then line else line ++ [10]

def marker (mark label : String) : List UInt8 :=
  (mark ++ label ++ "\n").toUTF8.toList

/-- The text of a part; a conflict stands between markers. -/
def Chunk.render (ourLabel theirLabel : String) : Chunk Line → List UInt8
  | .same ls | .taken ls => ls.flatten
  | .conflict ours theirs =>
    marker "<<<<<<< " ourLabel ++ ended ours ++ marker "=======" "" ++ ended theirs ++
      marker ">>>>>>> " theirLabel

def Chunk.isConflict {α : Type} : Chunk α → Bool
  | .conflict .. => true
  | _ => false

/-- A merged text, and whether it is free of conflicts. -/
structure Result where
  content : ByteArray
  clean : Bool

/-- How far a content is searched for the byte that no text holds. -/
def binaryWindow : Nat := 8000

def isBinary (content : ByteArray) : Bool :=
  (content.extract 0 binaryWindow).toList.contains 0

/-- Merges two changes of a content. One that is not a text is not merged, and ours stays. -/
def merge (ourLabel theirLabel : String) (base ours theirs : ByteArray) : Result :=
  if isBinary base || isBinary ours || isBinary theirs then ⟨ours, false⟩
  else
    let parts := chunks (lines base.toList) (lines ours.toList) (lines theirs.toList)
    ⟨(parts.flatMap (·.render ourLabel theirLabel)).toByteArray, !parts.any Chunk.isConflict⟩

end VaultSync.Git.LineMerge
