/-!
The values of a TOML document. Numbers with a fraction and points in time keep no content: no setting
has such a value, and that one is written well is all that matters.
-/

namespace VaultSync.Toml

/-- How a table came to be, which decides what may still be added to it. -/
inductive Origin
  /-- Written between braces; it is complete. -/
  | inline
  /-- Opened by a header of its own. -/
  | header
  /-- Named on the way to another header. -/
  | implied
  /-- Named in a key with dots. -/
  | dotted
deriving DecidableEq, Repr

/-- A TOML value. An array that headers filled is kept apart: only headers may add to it. -/
inductive Value
  | string (s : String)
  | integer (n : Int)
  | boolean (b : Bool)
  | float
  | dateTime
  | array (items : List Value)
  | table (origin : Origin) (members : List (String × Value))
  | tables (elements : List (List (String × Value)))

/-- The members of a table, in the order in which they were first named. -/
abbrev Table := List (String × Value)

namespace Table

/-- Replaces the value of a key, or adds the key at the end. -/
def set (table : Table) (key : String) (value : Value) : Table :=
  if table.any (·.1 = key) then
    table.map fun m => if m.1 = key then (key, value) else m
  else table ++ [(key, value)]

/-- Changes the innermost table on a path of keys, making the tables on the way. Fails where the path
leads through something that is complete. A path in a key with dots may not enter a table that has a
header. -/
def modifyAt (dotted : Bool) (change : Origin → Table → Option Table) (origin : Origin) :
    List String → Table → Option Table
  | [], table => change origin table
  | key :: path, table =>
    match table.lookup key with
    | none => do
      let origin := if dotted then .dotted else .implied
      let inner ← modifyAt dotted change origin path []
      pure (table.set key (.table origin inner))
    | some (.table inner members) =>
      if inner = .inline ∨ (dotted ∧ inner = .header) then none
      else do
        let members ← modifyAt dotted change inner path members
        pure (table.set key (.table inner members))
    | some (.tables elements) =>
      match elements.getLast? with
      | none => none
      | some last =>
        if dotted then none
        else do
          let last ← modifyAt dotted change .header path last
          pure (table.set key (.tables (elements.dropLast ++ [last])))
    | some _ => none

/-- Adds a value under a key with dots, inside a table with the given origin. A table that was not
made by such keys does not take them. -/
def addPath (origin : Origin) (table : Table) (path : List String) (key : String) (value : Value) :
    Option Table :=
  modifyAt true (fun inner members =>
    if path ≠ [] ∧ inner ≠ .dotted then none
    else if members.any (·.1 = key) then none
    else some (members ++ [(key, value)])) origin path table

/-- Opens a table by its header: it is new, or was only named on the way to another one. -/
def openTable (root : Table) (path : List String) (key : String) : Option Table :=
  modifyAt false (fun _ members =>
    match members.lookup key with
    | none => some (members.set key (.table .header []))
    | some (.table .implied inner) => some (members.set key (.table .header inner))
    | some _ => none) .header path root

/-- Adds a table to an array by a header. -/
def appendTable (root : Table) (path : List String) (key : String) : Option Table :=
  modifyAt false (fun _ members =>
    match members.lookup key with
    | none => some (members.set key (.tables [[]]))
    | some (.tables elements) => some (members.set key (.tables (elements ++ [[]])))
    | some _ => none) .header path root

/-- Adds a value inside the table that the last header opened. -/
def addUnder (root : Table) (current path : List String) (key : String) (value : Value) :
    Option Table :=
  modifyAt false (fun origin members => addPath origin members path key value) .header current root

end Table

end VaultSync.Toml
