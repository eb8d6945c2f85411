import VaultSync.Git.Repository
/-!
What a repository writes into its directory for people to read: the file that says where it stands, and
its configuration. A text that is not the one written there was put by someone else, and is read.
-/

namespace VaultSync.Git

/-- What stands in front of the name of a branch. -/
def Head.mark : String := "ref: "

/-- The text of the file that says where a repository stands. -/
def Head.fileText : Head → String
  | .branch name => mark ++ (RefName.branch name).text ++ "\n"
  | .detached _ => "detached\n"
  | .unreadable => "unreadable\n"

def Head.ofFileText (refs : Refs) (text : String) : Head :=
  let cs := text.toList
  if !mark.toList.isPrefixOf cs then .unreadable
  else
    let name := String.ofList (Text.dropEndWhile Char.isWhitespace (cs.drop mark.length))
    if !RefName.isWellFormed name then .unreadable
    else
      match Text.splitOnChar '/' name with
      | "refs" :: "heads" :: first :: rest => .branch (String.intercalate "/" (first :: rest))
      | "refs" :: "remotes" :: remote :: first :: rest =>
        ((refs.get? (.tracking remote (String.intercalate "/" (first :: rest)))).map .detached).getD
          .unreadable
      | _ => .unreadable

namespace Settings

/-- One value of a configuration. -/
structure Entry where
  sectionName : String
  /-- The quoted part of the name of a section. -/
  subsection : Option String
  key : String
  value : String
deriving DecidableEq, Repr

/-- Reads a value up to the end of its line, and what follows. -/
def readValue (quoted : Bool) (value : List Char) : List Char → Option (List Char × List Char)
  | [] => if quoted then none else some (value, [])
  | '\\' :: '\n' :: rest => readValue quoted value rest
  | '\\' :: c :: rest =>
    if c = '"' ∨ c = '\\' then readValue quoted (value ++ [c]) rest
    else if c = 'n' then readValue quoted (value ++ ['\n']) rest
    else if c = 't' then readValue quoted (value ++ ['\t']) rest
    else if c = 'b' then readValue quoted (value ++ ['\x08']) rest
    else none
  | c :: rest =>
    if c = '"' then readValue (!quoted) value rest
    else if c = '\n' then if quoted then none else some (value, rest)
    else if !quoted ∧ (c = '#' ∨ c = ';') then some (value, (rest.dropWhile (· ≠ '\n')).drop 1)
    else readValue quoted (value ++ [c]) rest

/-- Reads the quoted part of the name of a section. -/
def readSubsection (name : List Char) : List Char → Option (List Char × List Char)
  | '\\' :: c :: rest => readSubsection (name ++ [c]) rest
  | '"' :: ']' :: rest => some (name, rest)
  | c :: rest => if c = '"' ∨ c = '\n' then none else readSubsection (name ++ [c]) rest
  | [] => none

/-- A character of the name of a section or a key. -/
def isNameChar (c : Char) : Bool :=
  c.isAlphanum || c = '-' || c = '.'

def isInlineBlank (c : Char) : Bool :=
  c = ' ' || c = '\t' || c = '\r'

/-- Reads entries, given the section that they belong to. -/
def readEntries (fuel : Nat) (current : Option (String × Option String)) (text : List Char) :
    Option (List Entry) :=
  match fuel with
  | 0 => none
  | fuel + 1 =>
    match text.dropWhile fun c => isInlineBlank c || c = '\n' with
    | [] => some []
    | '[' :: rest =>
      let name := rest.takeWhile isNameChar
      if name.isEmpty then none
      else
        match (rest.drop name.length).dropWhile isInlineBlank with
        | ']' :: rest => readEntries fuel (some (String.ofList name, none)) rest
        | '"' :: rest => do
          let (sub, rest) ← readSubsection [] rest
          readEntries fuel (some (String.ofList name, some (String.ofList sub))) rest
        | _ => none
    | c :: rest =>
      if c = '#' ∨ c = ';' then readEntries fuel current (rest.dropWhile (· ≠ '\n'))
      else do
        let (sectionName, subsection) ← current
        let key := (c :: rest).takeWhile isNameChar
        if key.isEmpty then none
        let (value, rest) ← match ((c :: rest).drop key.length).dropWhile isInlineBlank with
          | '=' :: rest => readValue false [] (rest.dropWhile isInlineBlank)
          | [] => some ([], [])
          | d :: rest => if d = '\n' then some ([], rest) else none
        let value := String.ofList (Text.dropEndWhile isInlineBlank value)
        let more ← readEntries fuel current rest
        pure (⟨sectionName, subsection, String.ofList key, value⟩ :: more)

def read? (text : String) : Option (List Entry) :=
  readEntries (text.length + 1) none text.toList

def remotes (entries : List Entry) : List (String × String) :=
  entries.filterMap fun e =>
    match e.subsection with
    | some name => if e.sectionName = "remote" ∧ e.key = "url" then some (name, e.value) else none
    | none => none

def text (bare : Bool) (remotes : List (String × String)) : String :=
  "[core]\n\tbare = " ++ (if bare then "true" else "false") ++
    "\n\trepositoryformatversion = 0\n\tfilemode = true\n" ++
    String.join (remotes.map fun r =>
      "[remote \"" ++ r.1 ++ "\"]\n\turl = " ++ r.2 ++
        "\n\tfetch = +refs/heads/*:refs/remotes/" ++ r.1 ++ "/*\n")

end Settings

end VaultSync.Git
