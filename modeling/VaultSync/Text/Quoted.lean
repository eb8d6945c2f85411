import VaultSync.Text.Hex
import VaultSync.Text.Printable
/-!
Quoted text, as diagnostics show it: between double quotes, with the usual short escapes, and with
every character that has no visible shape written by its code point.
-/

namespace VaultSync.Text

def quoteChar (c : Char) : List Char :=
  match c with
  | '\x00' => ['\\', '0']
  | '\t' => ['\\', 't']
  | '\r' => ['\\', 'r']
  | '\n' => ['\\', 'n']
  | '\\' => ['\\', '\\']
  | '"' => ['\\', '"']
  | c => if isShown c then [c] else "\\u\x7b".toList ++ hexDigitsInto c.toNat ['\x7d']

def quote (s : String) : String :=
  String.ofList ('"' :: s.toList.flatMap quoteChar ++ ['"'])

/-- An optional text: `None`, or `Some` with the text in quotes. -/
def quoteOption : Option String → String
  | none => "None"
  | some s => "Some(" ++ quote s ++ ")"

/-- The fields of a record, as `name: value` between braces. An open record ends in two dots, which
stand for fields that are kept back. -/
def recordText (name : String) (fields : List (String × String)) (openEnd : Bool) : String :=
  let shown := fields.map fun f => f.1 ++ ": " ++ f.2
  let shown := if openEnd then shown ++ [".."] else shown
  name ++ " \x7b " ++ String.intercalate ", " shown ++ " \x7d"

end VaultSync.Text
