import VaultSync.Text.Hex
/-!
Writing TOML strings. The form is the plainest that holds the text as it is: in double quotes without
escapes, else literal, else over several lines; only if none of them can, with escapes.
-/

namespace VaultSync.Toml

def longestRun (c : Char) (cs : List Char) : Nat :=
  (cs.foldl (fun (run, best) x => if x = c then (run + 1, max best (run + 1)) else (0, best))
    ((0, 0) : Nat × Nat)).2

/-- A control character that no form without escapes holds. -/
def needsEscape (c : Char) : Bool :=
  (c.toNat < 32 || c.toNat == 127) && c != '\t' && c != '\n'

/-- The escape of a character, if it has one. -/
def escapeOf? (long : Bool) (c : Char) : Option (List Char) :=
  match c with
  | '\x08' => some ['\\', 'b']
  | '\t' => some ['\\', 't']
  | '\n' => if long then none else some ['\\', 'n']
  | '\x0c' => some ['\\', 'f']
  | '\r' => some ['\\', 'r']
  | '\\' => some ['\\', '\\']
  | c =>
    if c.toNat < 32 ∨ c.toNat = 127 then
      some (['\\', 'u', '0', '0', Text.upperHexDigit (c.toNat / 16), Text.upperHexDigit (c.toNat % 16)])
    else none

/-- The characters of a string with escapes. `quotes` counts the double quotes just before; one more
than the form takes is escaped. -/
def escapeChars (long : Bool) (quotes : Nat) : List Char → List Char
  | [] => []
  | c :: rest =>
    if c = '"' then
      if quotes + 1 > (if long then 2 else 0) then '\\' :: '"' :: escapeChars long 0 rest
      else '"' :: escapeChars long (quotes + 1) rest
    else (escapeOf? long c).getD [c] ++ escapeChars long 0 rest

/-- A string in the plainest form that holds it. -/
def writeString (s : String) : String :=
  let cs := s.toList
  let control := cs.any needsEscape
  let backslash := cs.contains '\\'
  let newline := cs.contains '\n'
  let doubles := longestRun '"' cs
  let singles := longestRun '\'' cs
  let start := if newline then "\n" else ""
  let basic := "\"" ++ String.ofList (escapeChars false 0 cs) ++ "\""
  let long := "\"\"\"" ++ start ++ String.ofList (escapeChars true 0 cs) ++ "\"\"\""
  if ¬ control ∧ ¬ backslash ∧ doubles = 0 ∧ ¬ newline then basic
  else if ¬ control ∧ singles = 0 ∧ ¬ newline then "'" ++ s ++ "'"
  else if ¬ control ∧ ¬ backslash ∧ doubles ≤ 2 then long
  else if ¬ control ∧ singles ≤ 2 then "'''" ++ start ++ s ++ "'''"
  else if newline then long
  else basic

/-- A section of keys with values that are written already. -/
def writeSection (name : String) (members : List (String × String)) : String :=
  "[" ++ name ++ "]\n" ++ String.join (members.map fun m => m.1 ++ " = " ++ m.2 ++ "\n")

def writeSections (sections : List (String × List (String × String))) : String :=
  String.intercalate "\n" (sections.map fun s => writeSection s.1 s.2)

end VaultSync.Toml
