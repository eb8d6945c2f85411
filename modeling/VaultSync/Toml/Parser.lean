import VaultSync.Toml.Scalar
/-!
Reading a TOML document. Readers take characters from the front and return what is left. Arrays and
inline tables nest at most `maxDepth` deep, which is also what their readers recurse on.
-/

namespace VaultSync.Toml

/-- How deep values nest, and how many parts a key has, at most. -/
def maxDepth : Nat := 80

def skipBlanks (cs : List Char) : List Char :=
  cs.dropWhile fun c => c == ' ' || c == '\t'

def beyondAscii (c : Char) : Bool := 128 ≤ c.toNat

def isCommentChar (c : Char) : Bool :=
  c == '\t' || (' ' ≤ c && c ≤ '~') || beyondAscii c

def skipComment (cs : List Char) : List Char :=
  match cs with
  | '#' :: rest => rest.dropWhile isCommentChar
  | _ => cs

def newline? : List Char → Option (List Char)
  | '\n' :: rest => some rest
  | '\r' :: '\n' :: rest => some rest
  | _ => none

/-- Takes the rest of a line in which nothing but a comment may follow. -/
def lineEnd? (cs : List Char) : Option (List Char) :=
  match skipComment (skipBlanks cs) with
  | [] => some []
  | rest => newline? rest

/-- Drops blanks, comments and line breaks, in at most as many rounds as there are characters. -/
def skipLines (fuel : Nat) (cs : List Char) : List Char :=
  match fuel with
  | 0 => cs
  | fuel + 1 =>
    let rest := skipComment (skipBlanks cs)
    match newline? rest with
    | some rest => skipLines fuel rest
    | none => rest

def skipSpace (cs : List Char) : List Char :=
  skipLines (cs.length + 1) cs

/-! ### Strings -/

/-- The character of a code point in base sixteen; surrogates are none. -/
def codePoint? (digits : List Char) : Option Char := do
  if digits.all fun c => (Text.hexValue? c).isSome then
    let n := valueOf 16 digits
    if n < 0xD800 ∨ (0xE000 ≤ n ∧ n ≤ 0x10FFFF) then some (Char.ofNat n) else none
  else none

def shortEscape? : Char → Option Char
  | 'b' => some '\x08'
  | 't' => some '\t'
  | 'n' => some '\n'
  | 'f' => some '\x0c'
  | 'r' => some '\r'
  | '"' => some '"'
  | '\\' => some '\\'
  | _ => none

def escape? : List Char → Option (Char × List Char)
  | 'u' :: a :: b :: c :: d :: rest => (codePoint? [a, b, c, d]).map fun ch => (ch, rest)
  | 'U' :: a :: b :: c :: d :: e :: f :: g :: h :: rest =>
    (codePoint? [a, b, c, d, e, f, g, h]).map fun ch => (ch, rest)
  | c :: rest => (shortEscape? c).map fun ch => (ch, rest)
  | [] => none

theorem length_lt_of_escape? {cs : List Char} {c : Char} {rest : List Char}
    (h : escape? cs = some (c, rest)) : rest.length < cs.length := by
  unfold escape? at h
  split at h <;> simp at h <;> obtain ⟨_, _, h⟩ := h <;> simp_all <;> omega

/-- A character that stands for itself inside a string with escapes. -/
def isPlain (c : Char) : Bool :=
  c == '\t' || (' ' ≤ c && c ≤ '~' && c != '"' && c != '\\') || beyondAscii c

/-- The rest of a string with escapes, up to its closing quote. -/
def basicString? (cs : List Char) : Option (List Char × List Char) :=
  match cs with
  | [] => none
  | '"' :: rest => some ([], rest)
  | '\\' :: rest =>
    match h : escape? rest with
    | none => none
    | some (c, rest') =>
      have : rest'.length < rest.length := length_lt_of_escape? h
      (basicString? rest').map fun r => (c :: r.1, r.2)
  | c :: rest => if isPlain c then (basicString? rest).map fun r => (c :: r.1, r.2) else none
termination_by cs.length

/-- A character that stands for itself inside a literal string. -/
def isLiteral (c : Char) : Bool :=
  c == '\t' || (' ' ≤ c && c ≤ '~' && c != '\'') || beyondAscii c

/-- The rest of a literal string, up to its closing quote. -/
def literalString? : List Char → Option (List Char × List Char)
  | [] => none
  | '\'' :: rest => some ([], rest)
  | c :: rest => if isLiteral c then (literalString? rest).map fun r => (c :: r.1, r.2) else none

def skipNewline (cs : List Char) : List Char :=
  (newline? cs).getD cs

/-- Takes quotes at the end of a string of several lines: three close it, and up to two more before
them belong to it. -/
def closingQuotes? (quote : Char) (cs : List Char) : Option (List Char × List Char) :=
  let run := (cs.takeWhile (· == quote)).length
  if run < 3 then none
  else
    let kept := min (run - 3) 2
    some (List.replicate kept quote, cs.drop (kept + 3))

/-- What a backslash at the end of a line skips: blanks and line breaks, one of which comes first after
the blanks. -/
def foldedLine? (cs : List Char) : Option (List Char) := do
  let rest ← newline? (skipBlanks cs)
  let skipped := rest.dropWhile fun c => c == ' ' || c == '\t' || c == '\n'
  pure skipped

/-- The rest of a string of several lines. Escapes count in it unless it is literal. Every line break
is a single character. -/
def longString? (quote : Char) (fuel : Nat) (cs : List Char) : Option (List Char × List Char) :=
  match fuel with
  | 0 => none
  | fuel + 1 =>
    match closingQuotes? quote cs with
    | some closed => some closed
    | none =>
      match cs with
      | [] => none
      | '\n' :: rest | '\r' :: '\n' :: rest =>
        (longString? quote fuel rest).map fun r => ('\n' :: r.1, r.2)
      | c :: rest =>
        if c = quote then (longString? quote fuel rest).map fun r => (c :: r.1, r.2)
        else if c = '\\' ∧ quote = '"' then
          match escape? rest with
          | some (c, rest) => (longString? quote fuel rest).map fun r => (c :: r.1, r.2)
          | none =>
            match foldedLine? rest with
            | some rest => longString? quote fuel (skipFolded fuel rest)
            | none => none
        else if c = '\t' ∨ (' ' ≤ c ∧ c ≤ '~') ∨ beyondAscii c then
          (longString? quote fuel rest).map fun r => (c :: r.1, r.2)
        else none
where
  /-- Drops blanks and line breaks with a carriage return. -/
  skipFolded (fuel : Nat) (cs : List Char) : List Char :=
    match fuel, cs with
    | fuel + 1, '\r' :: '\n' :: rest =>
      skipFolded fuel (rest.dropWhile fun c => c == ' ' || c == '\t' || c == '\n')
    | _, cs => cs

def string? : List Char → Option (String × List Char)
  | '"' :: '"' :: '"' :: rest =>
    (longString? '"' (rest.length + 1) (skipNewline rest)).map fun r => (String.ofList r.1, r.2)
  | '\'' :: '\'' :: '\'' :: rest =>
    (longString? '\'' (rest.length + 1) (skipNewline rest)).map fun r => (String.ofList r.1, r.2)
  | '"' :: rest => (basicString? rest).map fun r => (String.ofList r.1, r.2)
  | '\'' :: rest => (literalString? rest).map fun r => (String.ofList r.1, r.2)
  | _ => none

/-! ### Keys -/

def isBareKeyChar (c : Char) : Bool :=
  c.isAlphanum || c == '_' || c == '-'

def keyPart? (cs : List Char) : Option (String × List Char) :=
  match cs with
  | '"' :: rest => (basicString? rest).map fun r => (String.ofList r.1, r.2)
  | '\'' :: rest => (literalString? rest).map fun r => (String.ofList r.1, r.2)
  | _ =>
    let bare := cs.takeWhile isBareKeyChar
    if bare.isEmpty then none else some (String.ofList bare, cs.drop bare.length)

/-- The parts of a key, with blanks around each. -/
def keyParts? (fuel : Nat) (cs : List Char) : Option (List String × List Char) :=
  match fuel with
  | 0 => none
  | fuel + 1 => do
    let (part, rest) ← keyPart? (skipBlanks cs)
    match skipBlanks rest with
    | '.' :: rest =>
      let (parts, rest) ← keyParts? fuel rest
      pure (part :: parts, rest)
    | rest => pure ([part], rest)

/-- A key: the path to its table, and its last part. -/
def key? (cs : List Char) : Option (List String × String × List Char) := do
  let (parts, rest) ← keyParts? (maxDepth - 1) cs
  let last ← parts.getLast?
  pure (parts.dropLast, last, rest)

/-! ### Values -/

/-- The rest of an array behind its opening bracket. -/
def arrayItems? (value? : List Char → Option (Value × List Char)) (fuel : Nat) (cs : List Char) :
    Option (List Value × List Char) :=
  match fuel with
  | 0 => none
  | fuel + 1 =>
    match skipSpace cs with
    | ']' :: rest => some ([], rest)
    | cs => do
      let (item, rest) ← value? cs
      match skipSpace rest with
      | ',' :: rest =>
        let (items, rest) ← arrayItems? value? fuel rest
        pure (item :: items, rest)
      | ']' :: rest => pure ([item], rest)
      | _ => none

/-- The members of an inline table behind its opening brace, of which there is at least one. -/
def inlineMembers? (value? : List Char → Option (Value × List Char)) (fuel : Nat) (table : Table)
    (cs : List Char) : Option (Table × List Char) :=
  match fuel with
  | 0 => none
  | fuel + 1 => do
    let (path, key, rest) ← key? cs
    match rest with
    | '=' :: rest =>
      let (value, rest) ← value? (skipBlanks rest)
      let table ← table.addPath .inline path key value
      match skipBlanks rest with
      | ',' :: rest => inlineMembers? value? fuel table rest
      | '\x7d' :: rest => pure (table, rest)
      | _ => none
    | _ => none

/-- A value, inside as many arrays and inline tables as the depth leaves. -/
def value? (depth : Nat) (cs : List Char) : Option (Value × List Char) :=
  match depth with
  | 0 => none
  | depth + 1 =>
    match cs with
    | '"' :: _ | '\'' :: _ => (string? cs).map fun r => (.string r.1, r.2)
    | '[' :: rest =>
      if depth = 0 then none
      else (arrayItems? (value? depth) (rest.length + 1) rest).map fun r => (.array r.1, r.2)
    | '\x7b' :: rest =>
      if depth = 0 then none
      else
        match skipBlanks rest with
        | '\x7d' :: rest => some (.table .inline [], rest)
        | _ =>
          (inlineMembers? (value? depth) (rest.length + 1) [] rest).map fun r =>
            (.table .inline r.1, r.2)
    | _ => readScalar? cs

/-! ### Documents -/

/-- A document that is read in part: its tables, and the path of the one that the last header opened. -/
structure Reading where
  root : Table
  current : List String

def header? (reading : Reading) (cs : List Char) : Option (Reading × List Char) :=
  match cs with
  | '[' :: rest => do
    let (path, key, rest) ← key? rest
    match rest with
    | ']' :: ']' :: rest =>
      let root ← reading.root.appendTable path key
      pure (⟨root, path ++ [key]⟩, rest)
    | _ => none
  | _ => do
    let (path, key, rest) ← key? cs
    match rest with
    | ']' :: rest =>
      let root ← reading.root.openTable path key
      pure (⟨root, path ++ [key]⟩, rest)
    | _ => none

def member? (reading : Reading) (cs : List Char) : Option (Reading × List Char) := do
  let (path, key, rest) ← key? cs
  match rest with
  | '=' :: rest =>
    let (value, rest) ← value? maxDepth (skipBlanks rest)
    let root ← reading.root.addUnder reading.current path key value
    pure ({ reading with root }, rest)
  | _ => none

/-- Reads lines to the end, at most one for each unit of fuel. -/
def lines? (fuel : Nat) (reading : Reading) (cs : List Char) : Option Reading :=
  match fuel with
  | 0 => none
  | fuel + 1 =>
    match skipSpace cs with
    | [] => some reading
    | '[' :: rest => do
      let (reading, rest) ← header? reading rest
      lines? fuel reading (← lineEnd? rest)
    | cs => do
      let (reading, rest) ← member? reading cs
      lines? fuel reading (← lineEnd? rest)

/-- Reads a document. A byte order mark in front of it is left out. -/
def parse? (text : String) : Option Table :=
  let cs := match text.toList with
    | '\ufeff' :: rest => rest
    | cs => cs
  (lines? (cs.length + 1) ⟨[], []⟩ cs).map (·.root)

end VaultSync.Toml
