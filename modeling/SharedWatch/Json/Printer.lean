import SharedWatch.Json.Basic
import SharedWatch.Number.Shortest

/-!
Writing JSON values.

`compact` writes a value without any space, `pretty` over several lines with two spaces a level.
Both keep the members of an object in the order of their list. In a text only the quote, the
backslash and the control characters are escaped.
-/

namespace SharedWatch.Json

/-! ## Texts -/

/-- A hexadecimal digit below sixteen, lower case. -/
def hexDigit (n : Nat) : Char := Char.ofNat (if n < 10 then 48 + n else 87 + n)

/-- One character inside a written text. -/
def escapeChar (c : Char) : List Char :=
  if c = '"' then ['\\', '"']
  else if c = '\\' then ['\\', '\\']
  else if 0x20 ≤ c.toNat then [c]
  else if c = '\n' then ['\\', 'n']
  else if c = '\r' then ['\\', 'r']
  else if c = '\t' then ['\\', 't']
  else if c.toNat = 8 then ['\\', 'b']
  else if c.toNat = 12 then ['\\', 'f']
  else ['\\', 'u', '0', '0', hexDigit (c.toNat / 16), hexDigit (c.toNat % 16)]

/-- A text between quotes. -/
def textChars (s : String) : List Char := '"' :: (s.toList.flatMap escapeChar ++ ['"'])

/-! ## Numbers -/

/-- The digits of a natural number in base ten. -/
def natChars (n : Nat) : List Char := Nat.toDigits 10 n

/-- An integer in base ten. -/
def intChars (n : Int) : List Char :=
  if n < 0 then '-' :: natChars n.natAbs else natChars n.natAbs

/-- The magnitude of a number that is not zero. The point stands inside the digits or among zeros
next to them while that takes at most sixteen places before it or five after it; otherwise it stands
after the first digit and a power of ten follows. -/
def decimalChars (d : Decimal) : List Char :=
  let digits := natChars d.digits
  let lead : Int := (digits.length : Int) + d.exponent
  if 0 ≤ d.exponent ∧ lead ≤ 16 then
    digits ++ List.replicate d.exponent.toNat '0' ++ ['.', '0']
  else if 0 < lead ∧ lead ≤ 16 then
    digits.take lead.toNat ++ '.' :: digits.drop lead.toNat
  else if -5 < lead ∧ lead ≤ 0 then
    '0' :: '.' :: List.replicate (-lead).toNat '0' ++ digits
  else
    digits.take 1 ++ (if digits.length ≤ 1 then [] else '.' :: digits.drop 1) ++
      'e' :: intChars (lead - 1)

/-- A floating-point number: the fewest digits that read back, always told from an integer. -/
def floatChars (x : Binary64) : List Char :=
  (if x.negative then ['-'] else []) ++
    if x.isZero then ['0', '.', '0'] else decimalChars x.shortest

/-- The word for a truth value. -/
def boolChars (b : Bool) : List Char := if b then "true".toList else "false".toList

/-! ## Values on one line -/

mutual

/-- The value without any space. -/
def compactChars : Json → List Char
  | .null => "null".toList
  | .bool b => boolChars b
  | .int n => intChars n
  | .float x => floatChars x
  | .text s => textChars s
  | .list items => '[' :: (compactItems items ++ [']'])
  | .object members => '\x7b' :: (compactMembers members ++ ['\x7d'])

def compactItems : List Json → List Char
  | [] => []
  | [x] => compactChars x
  | x :: rest => compactChars x ++ ',' :: compactItems rest

def compactMembers : List (String × Json) → List Char
  | [] => []
  | [(k, x)] => textChars k ++ ':' :: compactChars x
  | (k, x) :: rest => textChars k ++ ':' :: (compactChars x ++ ',' :: compactMembers rest)

end

def compact (v : Json) : String := String.ofList v.compactChars

/-! ## Values over several lines -/

/-- A new line at the given level. -/
def newline (level : Nat) : List Char := '\n' :: List.replicate (2 * level) ' '

mutual

/-- The value over several lines, its first line at the given level already begun. Empty lists and
objects are closed at once. -/
def prettyChars (level : Nat) : Json → List Char
  | .list [] => ['[', ']']
  | .list items => '[' :: (prettyItems (level + 1) items ++ newline level ++ [']'])
  | .object [] => ['\x7b', '\x7d']
  | .object members =>
    '\x7b' :: (prettyMembers (level + 1) members ++ newline level ++ ['\x7d'])
  | .null => "null".toList
  | .bool b => boolChars b
  | .int n => intChars n
  | .float x => floatChars x
  | .text s => textChars s

def prettyItems (level : Nat) : List Json → List Char
  | [] => []
  | [x] => newline level ++ prettyChars level x
  | x :: rest => newline level ++ prettyChars level x ++ ',' :: prettyItems level rest

def prettyMembers (level : Nat) : List (String × Json) → List Char
  | [] => []
  | [(k, x)] => newline level ++ textChars k ++ ':' :: ' ' :: prettyChars level x
  | (k, x) :: rest =>
    newline level ++ textChars k ++ ':' :: ' ' :: prettyChars level x ++
      ',' :: prettyMembers level rest

end

def pretty (v : Json) : String := String.ofList (v.prettyChars 0)

end SharedWatch.Json
