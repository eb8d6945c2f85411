/-!
A point in time on the calendar, and its two written forms.
-/

namespace VaultSync

/-- A second of a day in universal time. -/
structure Moment where
  year : Nat
  month : Nat
  day : Nat
  hour : Nat
  minute : Nat
  second : Nat
deriving DecidableEq, Repr

namespace Moment

/-- The last digits of a number, with zeros in front. -/
def digits (places n : Nat) : String :=
  match places with
  | 0 => ""
  | places + 1 => digits places (n / 10) ++ String.singleton (Nat.digitChar (n % 10))

def stamp (m : Moment) : String :=
  digits 4 m.year ++ "-" ++ digits 2 m.month ++ "-" ++ digits 2 m.day ++ "T" ++
    digits 2 m.hour ++ ":" ++ digits 2 m.minute ++ ":" ++ digits 2 m.second ++ "Z"

def compact (m : Moment) : String :=
  digits 4 m.year ++ digits 2 m.month ++ digits 2 m.day ++
    digits 2 m.hour ++ digits 2 m.minute ++ digits 2 m.second

/-- Whether a year has a day more in February. -/
def isLeap (year : Nat) : Bool :=
  year % 4 = 0 && (year % 100 ≠ 0 || year % 400 = 0)

def monthLengths (year : Nat) : List Nat :=
  [31, if isLeap year then 29 else 28, 31, 30, 31, 30, 31, 31, 30, 31, 30, 31]

/-- The month and the day in it, of a day that is counted from zero at the start of a month. -/
def monthDay (month day : Nat) : List Nat → Nat × Nat
  | [] => (month, day + 1)
  | length :: rest => if day < length then (month, day + 1) else monthDay (month + 1) (day - length) rest

/-- The year and the day in it, of a day that is counted from zero at the start of a year. -/
def yearDay (fuel year day : Nat) : Nat × Nat :=
  match fuel with
  | 0 => (year, day)
  | fuel + 1 =>
    let length := if isLeap year then 366 else 365
    if day < length then (year, day) else yearDay fuel (year + 1) (day - length)

/-- The moment a number of seconds after the start of 1970. -/
def ofSeconds (seconds : Nat) : Moment :=
  let days := seconds / 86400
  let (year, day) := yearDay (days / 365 + 1) 1970 days
  let (month, day) := monthDay 1 day (monthLengths year)
  ⟨year, month, day, seconds / 3600 % 24, seconds / 60 % 60, seconds % 60⟩

end Moment

end VaultSync
