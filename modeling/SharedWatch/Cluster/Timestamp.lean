import SharedWatch.Text.Blank
import SharedWatch.Text.Numeral

/-!
Points in time, to the second.

`parse?` reads a date, a time of day and an offset from universal time. Blanks may stand between the
parts, and a fraction of a second does not count. `display` writes the point in universal time.
-/

namespace SharedWatch

/-- A point in time: the days since 1970 and the second of the day. An inserted second is the one
before it, marked. -/
structure Timestamp where
  day : Int
  second : Nat
  inserted : Bool
  deriving DecidableEq, Repr

namespace Timestamp

/-! ## Dates -/

def isLeap (year : Int) : Bool := year % 4 == 0 && (year % 100 != 0 || year % 400 == 0)

def daysIn (year : Int) (month : Nat) : Nat :=
  if month = 2 then (if isLeap year then 29 else 28)
  else if month = 4 ∨ month = 6 ∨ month = 9 ∨ month = 11 then 30 else 31

/-- The days from the first of March of year zero to a date; years are counted from March, so that
the inserted day is the last of its year. -/
def dayOf (year : Int) (month day : Nat) : Int :=
  let y := if month ≤ 2 then year - 1 else year
  let m : Int := (month + 9) % 12
  365 * y + y / 4 - y / 100 + y / 400 + (153 * m + 2) / 5 + (day - 1) - 719468

/-- The year, month and day that a count of days since 1970 falls on. -/
def date (days : Int) : Int × Nat × Nat :=
  let z := days + 719468
  let era := z / 146097
  let doe := z % 146097
  let yoe := (doe - doe / 1460 + doe / 36524 - doe / 146096) / 365
  let doy := doe - (365 * yoe + yoe / 4 - yoe / 100)
  let mp := (5 * doy + 2) / 153
  let day := doy - (153 * mp + 2) / 5 + 1
  let month := if mp < 10 then mp + 3 else mp - 9
  (yoe + 400 * era + (if month ≤ 2 then 1 else 0), month.toNat, day.toNat)

/-! ## Reading -/

/-- What is left after blanks. -/
def skipBlanks (cs : List Char) : List Char := cs.dropWhile Text.isBlank

/-- Reads one to `width` digits after blanks. -/
def digits? (width : Nat) (cs : List Char) : Option (Nat × List Char) :=
  let cs := skipBlanks cs
  let ds := (cs.take width).takeWhile Text.isDigit
  if ds.isEmpty then none else some (Text.digitsValue ds, cs.drop ds.length)

/-- Passes a character after blanks. -/
def mark? (c : Char) (cs : List Char) : Option (List Char) :=
  match skipBlanks cs with
  | d :: rest => if d = c then some rest else none
  | [] => none

/-- Passes a fraction of a second, if there is one. -/
def skipFraction? : List Char → Option (List Char)
  | '.' :: rest =>
    if (rest.head?.any Text.isDigit) then some (rest.dropWhile Text.isDigit) else none
  | cs => some cs

def twoDigits? : List Char → Option (Nat × List Char)
  | a :: b :: rest =>
    if Text.isDigit a && Text.isDigit b then some (Text.digitsValue [a, b], rest) else none
  | _ => none

/-- Reads the offset from universal time, in minutes. -/
def offset? : List Char → Option (Int × List Char)
  | 'Z' :: rest => some (0, rest)
  | 'z' :: rest => some (0, rest)
  | c :: rest =>
    if c = '+' ∨ c = '-' ∨ c = '−' then
      match twoDigits? rest with
      | none => none
      | some (hours, rest) =>
        match twoDigits? (rest.dropWhile fun c => c == ':' || Text.isBlank c) with
        | none => none
        | some (minutes, rest) =>
          if minutes < 60 ∧ hours < 24 then
            some ((if c = '+' then 1 else -1) * (60 * hours + minutes : Nat), rest)
          else none
    else if (String.ofList ((c :: rest).take 3)).toUpper = "UTC" then some (0, rest.drop 2)
    else none
  | [] => none

/-- The point that a local date and time with an offset stand for, if the date exists. -/
def make? (year month day hour minute second : Nat) (offset : Int) : Option Timestamp :=
  if 1 ≤ month ∧ month ≤ 12 ∧ 1 ≤ day ∧ day ≤ daysIn year month ∧ hour < 24 ∧ minute < 60 ∧
      second ≤ 60 then
    let time : Int := (hour * 3600 + minute * 60 + min second 59 : Nat) - offset * 60
    some ⟨dayOf year month day + time / 86400, (time % 86400).toNat, second == 60⟩
  else none

def parse? (s : String) : Option Timestamp := do
  let (year, cs) ← digits? 4 s.toList
  let cs ← mark? '-' cs
  let (month, cs) ← digits? 2 cs
  let cs ← mark? '-' cs
  let (day, cs) ← digits? 2 cs
  let cs ← match cs with
    | c :: rest => if c = 'T' ∨ c = 't' ∨ c = ' ' then some rest else none
    | [] => none
  let (hour, cs) ← digits? 2 cs
  let cs ← mark? ':' cs
  let (minute, cs) ← digits? 2 cs
  let cs ← mark? ':' cs
  let (second, cs) ← digits? 2 cs
  let cs ← skipFraction? cs
  let (offset, cs) ← offset? (skipBlanks cs)
  if (skipBlanks cs).isEmpty then make? year month day hour minute second offset else none

/-! ## Writing -/

/-- A number with zeros in front, so that it has `width` digits at least. -/
def padded (width n : Nat) : String :=
  let ds := Nat.toDigits 10 n
  String.ofList (List.replicate (width - ds.length) '0' ++ ds)

/-- A year: four digits, and a sign where those do not suffice. -/
def displayYear (year : Int) : String :=
  if 0 ≤ year ∧ year ≤ 9999 then padded 4 year.toNat
  else (if year < 0 then "-" else "+") ++ padded 4 year.natAbs

/-- The point in universal time. -/
def display (t : Timestamp) : String :=
  let (year, month, day) := date t.day
  displayYear year ++ "-" ++ padded 2 month ++ "-" ++ padded 2 day ++ "T" ++
    padded 2 (t.second / 3600) ++ ":" ++ padded 2 (t.second / 60 % 60) ++ ":" ++
    padded 2 (t.second % 60 + if t.inserted then 1 else 0) ++ "Z"

end Timestamp

end SharedWatch
