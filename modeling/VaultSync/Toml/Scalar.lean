import VaultSync.Text.Hex
import VaultSync.Toml.Value
/-!
Numbers, truth values and points in time. All are read from a whole token: a longest run of the
characters that may stand in one.
-/

namespace VaultSync.Toml

def isTokenChar (c : Char) : Bool :=
  c.isAlphanum || c == '_' || c == '-' || c == '+' || c == '.' || c == ':'

/-- The digits of a run in which an underscore may stand between two digits. -/
def digitRun? (isDigit : Char → Bool) : List Char → Option (List Char)
  | [] => none
  | [c] => if isDigit c then some [c] else none
  | c :: '_' :: rest => if isDigit c then (digitRun? isDigit rest).map (c :: ·) else none
  | c :: rest => if isDigit c then (digitRun? isDigit rest).map (c :: ·) else none

def valueOf (base : Nat) (digits : List Char) : Nat :=
  digits.foldl (fun n c => n * base + (Text.hexValue? c).getD 0) 0

/-- A decimal whole number without sign: no zero stands before another digit. -/
def decimal? (cs : List Char) : Option Nat :=
  match cs with
  | '0' :: _ :: _ => none
  | _ => (digitRun? Char.isDigit cs).map (valueOf 10)

def sign : List Char → Bool × List Char
  | '-' :: rest => (true, rest)
  | '+' :: rest => (false, rest)
  | cs => (false, cs)

/-- The whole numbers that fit in 64 bits with sign. -/
def inRange (n : Int) : Option Int :=
  if -9223372036854775808 ≤ n ∧ n ≤ 9223372036854775807 then some n else none

/-- A whole number. Only a decimal one may have a sign. -/
def integer? (cs : List Char) : Option Int :=
  match cs with
  | '0' :: 'x' :: rest =>
    (digitRun? (fun c => (Text.hexValue? c).isSome) rest).bind fun ds => inRange (valueOf 16 ds)
  | '0' :: 'o' :: rest =>
    (digitRun? (fun c => '0' ≤ c && c ≤ '7') rest).bind fun ds => inRange (valueOf 8 ds)
  | '0' :: 'b' :: rest =>
    (digitRun? (fun c => c == '0' || c == '1') rest).bind fun ds => inRange (valueOf 2 ds)
  | cs => do
    let (negative, digits) := sign cs
    let n ← decimal? digits
    inRange (if negative then -(n : Int) else n)

/-- Whether `mantissa · 10 ^ exponent` rounds to a double, and not to infinity. -/
def fitsDouble (mantissa : Nat) (exponent : Int) : Bool :=
  let limit := (1 <<< 1024) - (1 <<< 970)
  if mantissa = 0 then true
  else if exponent ≥ 400 then false
  else if exponent ≥ 0 then mantissa * Nat.pow 10 exponent.toNat < limit
  else if (Nat.log2 mantissa : Int) < max 1000 (-exponent) then true
  else mantissa < limit * Nat.pow 10 (-exponent).toNat

def exponent? (cs : List Char) : Option Int := do
  let (negative, digits) := sign cs
  let digits ← digitRun? Char.isDigit digits
  let n := valueOf 10 digits
  pure (if negative then -(n : Int) else n)

/-- Whether a token is a number with a fraction or an exponent. Infinity above is no rounded value. -/
def isFloat (cs : List Char) : Bool :=
  let (negative, body) := sign cs
  if body = ['i', 'n', 'f'] ∨ body = ['n', 'a', 'n'] then true
  else
    let whole := body.takeWhile fun c => c.isDigit || c == '_'
    let rest := body.drop whole.length
    let scanned : Option (Nat × Int) :=
      match decimal? whole, rest with
      | some w, '.' :: rest => do
        let frac := rest.takeWhile fun c => c.isDigit || c == '_'
        let digits ← digitRun? Char.isDigit frac
        let mantissa := w * Nat.pow 10 digits.length + valueOf 10 digits
        match rest.drop frac.length with
        | [] => pure (mantissa, -(digits.length : Int))
        | e :: rest =>
          if e = 'e' ∨ e = 'E' then do
            let x ← exponent? rest
            pure (mantissa, x - digits.length)
          else none
      | some w, e :: rest =>
        if e = 'e' ∨ e = 'E' then (exponent? rest).map fun x => (w, x) else none
      | _, _ => none
    match scanned with
    | some (mantissa, x) => negative || fitsDouble mantissa x
    | none => false

def fixed? (cs : List Char) : Option Nat :=
  if cs.isEmpty ∨ ¬ cs.all Char.isDigit then none else some (valueOf 10 cs)

def daysIn (year month : Nat) : Nat :=
  if month = 2 then
    if year % 4 = 0 ∧ (year % 100 ≠ 0 ∨ year % 400 = 0) then 29 else 28
  else if month = 4 ∨ month = 6 ∨ month = 9 ∨ month = 11 then 30
  else 31

def isDate (cs : List Char) : Bool :=
  match cs with
  | [y₁, y₂, y₃, y₄, '-', m₁, m₂, '-', d₁, d₂] =>
    match fixed? [y₁, y₂, y₃, y₄], fixed? [m₁, m₂], fixed? [d₁, d₂] with
    | some y, some m, some d => 1 ≤ m && m ≤ 12 && 1 ≤ d && d ≤ daysIn y m
    | _, _, _ => false
  | _ => false

def twoDigits (limit : Nat) (a b : Char) : Bool :=
  match fixed? [a, b] with
  | some n => n ≤ limit
  | none => false

def isTime (cs : List Char) : Bool :=
  match cs with
  | h₁ :: h₂ :: ':' :: m₁ :: m₂ :: ':' :: s₁ :: s₂ :: rest =>
    twoDigits 23 h₁ h₂ && twoDigits 59 m₁ m₂ && twoDigits 60 s₁ s₂ &&
      match rest with
      | [] => true
      | '.' :: frac => !frac.isEmpty && frac.all Char.isDigit
      | _ => false
  | _ => false

/-- Whether characters are a time of day, with or without its distance from the meridian. -/
def isZonedTime (cs : List Char) : Bool :=
  isTime cs ||
  match cs.reverse with
  | 'Z' :: rest | 'z' :: rest => isTime rest.reverse
  | m₂ :: m₁ :: ':' :: h₂ :: h₁ :: s :: rest =>
    (s == '+' || s == '-') && twoDigits 23 h₁ h₂ && twoDigits 59 m₁ m₂ && isTime rest.reverse
  | _ => false

def isDateTime (cs : List Char) : Bool :=
  isDate cs || isTime cs ||
  (isDate (cs.take 10) &&
    match cs.drop 10 with
    | 'T' :: rest | 't' :: rest => isZonedTime rest
    | _ => false)

def scalar? (cs : List Char) : Option Value :=
  if cs = ['t', 'r', 'u', 'e'] then some (.boolean true)
  else if cs = ['f', 'a', 'l', 's', 'e'] then some (.boolean false)
  else if isDateTime cs then some .dateTime
  else if isFloat cs then some .float
  else (integer? cs).map .integer

/-- Reads a token from the front. A date may be followed by a blank and a time. -/
def readScalar? (cs : List Char) : Option (Value × List Char) := do
  let token := cs.takeWhile isTokenChar
  let rest := cs.drop token.length
  match isDate token, rest with
  | true, ' ' :: after =>
    let time := after.takeWhile isTokenChar
    if isZonedTime time then pure (.dateTime, after.drop time.length) else pure (.dateTime, rest)
  | _, _ =>
    let value ← scalar? token
    pure (value, rest)

end VaultSync.Toml
