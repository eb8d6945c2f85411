import VaultSync.Encoding.Base64
import VaultSync.Text.Blank
/-!
The header of an age file: a version line, a stanza for every recipient, and an authentication code.
Reading tells input that ends too early from input that is wrong. The characters here are bytes.
-/

namespace VaultSync.Age

/-- What one recipient needs to open the file. -/
structure Stanza where
  tag : List Char
  args : List (List Char)
  body : ByteArray
deriving DecidableEq

/-- A header. -/
structure Header where
  stanzas : List Stanza
  mac : ByteArray
deriving DecidableEq

/-- Why a header cannot be read. -/
inductive HeaderFault
  /-- The input ends before the header does. -/
  | incomplete
  | malformed
deriving DecidableEq, Repr

def magic : List Char := "age-encryption.org/".toList

def version : List Char := ['v', '1']

def bodyColumns : Nat := 64

/-! ### Writing -/

def Stanza.encode (stanza : Stanza) : List Char :=
  let words := (stanza.tag :: stanza.args).flatMap fun w => ' ' :: w
  let body := Base64.encode stanza.body
  let lines := Text.wrapLines bodyColumns body.length body
  ['-', '>'] ++ words ++ ['\n'] ++ lines.flatMap (· ++ ['\n'])

/-- The part of a header that its authentication code covers. -/
def encodeStanzas (stanzas : List Stanza) : List Char :=
  magic ++ version ++ ['\n'] ++ stanzas.flatMap Stanza.encode ++ ['-', '-', '-']

def Header.encode (header : Header) : List Char :=
  encodeStanzas header.stanzas ++ [' '] ++ Base64.encode header.mac ++ ['\n']

/-! ### Reading -/

def expect : List Char → List Char → Except HeaderFault (List Char)
  | [], cs => .ok cs
  | _ :: _, [] => .error .incomplete
  | e :: es, c :: cs => if e = c then expect es cs else .error .malformed

def isWordChar (c : Char) : Bool :=
  33 ≤ c.toNat && c.toNat ≤ 126

def takeWord (cs : List Char) : Except HeaderFault (List Char × List Char) :=
  let word := cs.takeWhile isWordChar
  let rest := cs.dropWhile isWordChar
  if rest.isEmpty then .error .incomplete
  else if word.isEmpty then .error .malformed
  else .ok (word, rest)

/-- Takes words with a blank between two, up to the end of a line. -/
def takeWords (fuel : Nat) (cs : List Char) : Except HeaderFault (List (List Char) × List Char) :=
  match fuel with
  | 0 => .error .malformed
  | fuel + 1 => do
    let (word, rest) ← takeWord cs
    match rest with
    | '\n' :: rest => pure ([word], rest)
    | ' ' :: rest =>
      let (words, rest) ← takeWords fuel rest
      pure (word :: words, rest)
    | _ => .error .malformed

/-- Takes a line of base 64, which may be empty. -/
def takeBodyLine (cs : List Char) : Except HeaderFault (List Char × List Char) :=
  let isDigit := fun c => (Base64.valueOf? c).isSome
  match cs.dropWhile isDigit with
  | [] => .error .incomplete
  | '\n' :: rest => .ok (cs.takeWhile isDigit, rest)
  | _ => .error .malformed

/-- Takes the lines of a body: full ones, and a shorter one that ends it. -/
def takeBody (fuel : Nat) (cs : List Char) : Except HeaderFault (List Char × List Char) :=
  match fuel with
  | 0 => .error .malformed
  | fuel + 1 => do
    let (line, rest) ← takeBodyLine cs
    if line.length < bodyColumns then pure (line, rest)
    else if bodyColumns < line.length then .error .malformed
    else
      let (more, rest) ← takeBody fuel rest
      pure (line ++ more, rest)

/-- Takes the lines of a body without an empty line at its end. There may be none at all. -/
def takeOpenBody (fuel : Nat) (cs : List Char) : Except HeaderFault (List Char × List Char) :=
  match fuel with
  | 0 => .error .malformed
  | fuel + 1 =>
    match takeBodyLine cs with
    | .error .incomplete => .error .incomplete
    | .error .malformed => .ok ([], cs)
    | .ok ([], _) => .ok ([], cs)
    | .ok (line, rest) =>
      if line.length < bodyColumns then .ok (line, rest)
      else if bodyColumns < line.length then .error .malformed
      else do
        let (more, rest) ← takeOpenBody fuel rest
        pure (line ++ more, rest)

/-- Takes a stanza, with one of the two forms of body. -/
def takeStanza (openBody : Bool) (cs : List Char) : Except HeaderFault (Stanza × List Char) := do
  let rest ← expect ['-', '>', ' '] cs
  let (words, rest) ← takeWords (rest.length + 1) rest
  let (body, rest) ← (if openBody then takeOpenBody else takeBody) (rest.length + 1) rest
  match words, Base64.decode? body with
  | tag :: args, some bytes => pure (⟨tag, args, bytes⟩, rest)
  | _, _ => .error .malformed

def takeStanzas (openBody : Bool) (fuel : Nat) (cs : List Char) :
    Except HeaderFault (List Stanza × List Char) :=
  match fuel with
  | 0 => .error .malformed
  | fuel + 1 =>
    match takeStanza openBody cs with
    | .error .incomplete => .error .incomplete
    | .error .malformed => .ok ([], cs)
    | .ok (stanza, rest) => do
      let (stanzas, rest) ← takeStanzas openBody fuel rest
      pure (stanza :: stanzas, rest)

/-- The length of an authentication code in base 64. -/
def macColumns : Nat := 43

/-- Takes what follows the name of the format, up to the end of the header. -/
def takeFields (openBody : Bool) (cs : List Char) : Except HeaderFault (Header × List Char) := do
  let rest ← expect (version ++ ['\n']) cs
  let (stanzas, rest) ← takeStanzas openBody (rest.length + 1) rest
  let rest ← if stanzas.isEmpty then .error .malformed else expect ['-', '-', '-', ' '] rest
  if rest.length < macColumns then .error .incomplete
  else
    match Base64.decode? (rest.take macColumns) with
    | none => .error .malformed
    | some mac =>
      let rest ← expect ['\n'] (rest.drop macColumns)
      pure (⟨stanzas, mac⟩, rest)

/-- What is found at the start of a file. -/
inductive Opening
  | header (header : Header) (rest : List Char)
  /-- A version that is not read, or a header that breaks the rules of its version. -/
  | unknown

/-- Reads the header. Bodies without an empty line at the end are accepted if all are of that form. -/
def readHeader (cs : List Char) : Except HeaderFault Opening := do
  let rest ← expect magic cs
  match takeFields false rest with
  | .ok (header, rest) => pure (.header header rest)
  | .error .incomplete => .error .incomplete
  | .error .malformed =>
    match takeFields true rest with
    | .ok (header, rest) => pure (.header header rest)
    | .error .incomplete => .error .incomplete
    | .error .malformed =>
      let (_, rest) ← takeWord rest
      let _ ← expect ['\n'] rest
      pure .unknown

end VaultSync.Age
