/-!
Blank characters, trimming and lines. `isBlank` is the white space of the Unicode standard, which is
wider than the ASCII class of `Char.isWhitespace`.
-/

namespace VaultSync.Text

/-- White space in the sense of the Unicode property `White_Space`. -/
def isBlank (c : Char) : Bool :=
  let n := c.toNat
  (9 ≤ n && n ≤ 13) || n == 0x20 || n == 0x85 || n == 0xA0 || n == 0x1680 ||
    (0x2000 ≤ n && n ≤ 0x200A) || n == 0x2028 || n == 0x2029 || n == 0x202F || n == 0x205F ||
    n == 0x3000

/-- Drops the longest end of a list whose members all satisfy `p`. -/
def dropEndWhile {α : Type} (p : α → Bool) (xs : List α) : List α :=
  (xs.reverse.dropWhile p).reverse

/-- A list of characters without the blanks around it. -/
def trimChars (cs : List Char) : List Char :=
  dropEndWhile isBlank (cs.dropWhile isBlank)

def trim (s : String) : String :=
  String.ofList (trimChars s.toList)

/-- Every part of a list between two separators, so that one more part than separators comes out. -/
def splitChars (sep : Char) : List Char → List (List Char)
  | [] => [[]]
  | c :: rest =>
    if c = sep then [] :: splitChars sep rest
    else match splitChars sep rest with
      | [] => [[c]]
      | part :: parts => (c :: part) :: parts

def splitOnChar (sep : Char) (s : String) : List String :=
  (splitChars sep s.toList).map String.ofList

/-- A line without the carriage return that may stand before its line break. -/
def dropReturn (cs : List Char) : List Char :=
  match cs.getLast? with
  | some '\r' => cs.dropLast
  | _ => cs

/-- The lines of a text. A line break ends a line, together with a carriage return before it; what
follows the last break is a line only if it is not empty. -/
def lineChars (cs : List Char) : List (List Char) :=
  let parts := splitChars '\n' cs
  let ended := parts.dropLast.map dropReturn
  match parts.getLast? with
  | none | some [] => ended
  | some last => ended ++ [last]

def lines (s : String) : List String :=
  (lineChars s.toList).map String.ofList

/-- Characters in lines of a number of columns. The last line is shorter than the others, and empty if
need be. -/
def wrapLines (columns : Nat) (fuel : Nat) (cs : List Char) : List (List Char) :=
  match fuel with
  | 0 => [cs]
  | fuel + 1 =>
    if cs.length < columns then [cs]
    else cs.take columns :: wrapLines columns fuel (cs.drop columns)

/-- The small letter of an ASCII capital, and any other character unchanged. -/
def lowerAscii (c : Char) : Char :=
  if 'A' ≤ c ∧ c ≤ 'Z' then Char.ofNat (c.toNat + 32) else c

/-- The capital of an ASCII small letter, and any other character unchanged. -/
def upperAscii (c : Char) : Char :=
  if 'a' ≤ c ∧ c ≤ 'z' then Char.ofNat (c.toNat - 32) else c

/-- Equality of texts up to the case of ASCII letters. -/
def eqIgnoreAsciiCase (a b : String) : Bool :=
  a.toList.map lowerAscii == b.toList.map lowerAscii

end VaultSync.Text
