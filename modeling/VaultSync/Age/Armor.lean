import VaultSync.Age.Header
/-!
The armor of an age file: base 64 between two marker lines. Reading gives the bytes up to the first
fault, and the fault; a reader that needs no byte beyond them never sees it.
-/

namespace VaultSync.Age.Armor

def beginMarker : String := "-----BEGIN AGE ENCRYPTED FILE-----"

def endMarker : String := "-----END AGE ENCRYPTED FILE-----"

def columns : Nat := 64

/-- What breaks the rules of the armor. -/
inductive Fault
  | beginMarker
  | notWrapped
  | missingPadding
  | badByte (byte offset : Nat)
  | badLastSymbol (byte offset : Nat)
  | trailing
  | notText
deriving DecidableEq, Repr

def Fault.message : Fault → String
  | beginMarker => "invalid armor begin marker"
  | notWrapped => "invalid armor (not wrapped at 64 characters)"
  | missingPadding => "invalid armor (last line is missing padding)"
  | badByte byte offset => s!"DecodeError: Invalid byte {byte}, offset {offset}."
  | badLastSymbol byte offset => s!"DecodeError: Invalid last symbol {byte}, offset {offset}."
  | trailing => "invalid armor (non-whitespace characters after end marker)"
  | notText => "stream did not contain valid UTF-8"

/-- Bytes that can be read, and the fault behind them. -/
structure Source where
  bytes : ByteArray
  fault : Option Fault
deriving DecidableEq

/-! ### Writing -/

def encode (bytes : ByteArray) : String :=
  let body := Base64.encodePadded bytes
  let lines := (Text.wrapLines columns body.length body).filter (· ≠ [])
  beginMarker ++ "\n" ++ String.ofList (lines.flatMap (· ++ ['\n'])) ++ endMarker ++ "\n"

/-! ### Reading -/

/-- The first byte of a group of four that is no digit, and where it stands. In the last group of a
line two digits may be padding. -/
def badByteIn (last : Bool) (offset : Nat) (group : List UInt8) : Option Fault :=
  let padding := group.dropWhile (· ≠ 61)
  let digits := group.takeWhile (· ≠ 61)
  match digits.findIdx? fun b => (Base64.valueOf? (Char.ofNat b.toNat)).isNone with
  | some i => some (.badByte (digits.getD i 0).toNat (offset + i))
  | none =>
    if padding.isEmpty then none
    else if last ∧ digits.length ≥ 2 ∧ padding.all (· = 61) then none
    else some (.badByte 61 (offset + digits.length))

def decodeGroups (offset : Nat) : List UInt8 → Except Fault (List UInt8)
  | a :: b :: c :: d :: rest => do
    let group := [a, b, c, d]
    if let some fault := badByteIn rest.isEmpty offset group then .error fault
    let digits := group.takeWhile (· ≠ 61)
    match Base64.decodeChars? (digits.map fun b => Char.ofNat b.toNat) with
    | some bytes =>
      let more ← decodeGroups (offset + 4) rest
      pure (bytes ++ more)
    | none =>
      .error (.badLastSymbol (digits.getLastD 0).toNat (offset + digits.length - 1))
  | _ => .ok []

def chomp (line : List UInt8) : List UInt8 :=
  match line.reverse with
  | 10 :: 13 :: rest => rest.reverse
  | 10 :: rest => rest.reverse
  | _ => line

/-- Splits off a line together with its line break. -/
def takeLine (bytes : List UInt8) : List UInt8 × List UInt8 :=
  let line := bytes.takeWhile (· ≠ 10)
  match bytes.drop line.length with
  | [] => (line, [])
  | b :: rest => (line ++ [b], rest)

/-- A byte that may follow the armor. -/
def isSpace (b : UInt8) : Bool :=
  b = 32 || b = 9 || b = 10 || b = 12 || b = 13

/-- Reads the lines behind the first marker. `short` says that a line was not full, after which only
the end marker may come; `lead` is a part of the next line that was read already. -/
def readLines (fuel : Nat) (short : Bool) (lead : List UInt8) (bytes : List UInt8) : List UInt8 × Option Fault :=
  match fuel with
  | 0 => ([], some .notWrapped)
  | fuel + 1 =>
    let (line, rest) := takeLine bytes
    if (String.fromUTF8? line.toByteArray).isNone then ([], some .notText)
    else
      let line := chomp (lead ++ line)
      if line = endMarker.toUTF8.toList then
        ([], if rest.all isSpace then none else some .trailing)
      else if short then ([], some .notWrapped)
      else if line.length % 4 ≠ 0 then ([], some .missingPadding)
      else if columns < line.length then ([], some .notWrapped)
      else
        match decodeGroups 0 line with
        | .error fault => ([], some fault)
        | .ok decoded =>
          let (more, fault) := readLines fuel (line.length < columns) [] rest
          (decoded ++ more, fault)

/-- What can be read of a file, in armor or not. A file that is too short to tell has nothing. -/
def read (file : ByteArray) : Source :=
  let bytes := file.toList
  let marker := beginMarker.toUTF8.toList
  if bytes.length < marker.length + 2 then ⟨ByteArray.empty, none⟩
  else if marker ≠ bytes.take marker.length then ⟨file, none⟩
  else
    match bytes.drop marker.length with
    | 13 :: 10 :: rest =>
      let (decoded, fault) := readLines (rest.length + 2) false [] rest
      ⟨decoded.toByteArray, fault⟩
    | 10 :: first :: rest =>
      let lead := (String.singleton (Char.ofNat first.toNat)).toUTF8.toList
      let (decoded, fault) := readLines (rest.length + 2) false lead rest
      ⟨decoded.toByteArray, fault⟩
    | _ => ⟨ByteArray.empty, some .beginMarker⟩

end VaultSync.Age.Armor
