import SharedWatch.Json.Basic
import SharedWatch.Text.Numeral

/-!
Reading JSON text.

A reader takes the characters that are left and gives a value with the characters after it, or the
first flaw it meets from left to right. `value` reads any value; `chars`, `number` and `word` read
its pieces; `skip` passes over a value without looking at what its numbers and escapes stand for.
Objects and lists may be nested within one another down to the depth that the reader is given.
-/

namespace SharedWatch.Json

/-- Why a text cannot be read. -/
inductive Flaw where
  | truncated
  /-- The text is not JSON at this point. -/
  | malformed
  /-- The text is JSON but not of the shape that is asked for. -/
  | mismatched
  deriving DecidableEq, Repr

/-- A reader of values of type `α`. -/
abbrev Reader (α : Type) := List Char → Except Flaw (α × List Char)

/-- How many lists and objects may stand within one another. -/
def depthLimit : Nat := 127

/-! ## Blanks and words -/

/-- The four characters that may stand between the parts of a value. -/
def isSpace (c : Char) : Bool := c == ' ' || c == '\n' || c == '\t' || c == '\r'

/-- What is left after blanks. -/
def skipSpace (cs : List Char) : List Char := cs.dropWhile isSpace

/-- Reads the rest of a word. -/
def word : List Char → Reader Unit
  | [], cs => .ok ((), cs)
  | _ :: _, [] => .error .truncated
  | w :: ws, c :: cs => if w = c then word ws cs else .error .malformed

/-! ## Texts -/

/-- The value of a hexadecimal digit of either case. -/
def hexValue? (c : Char) : Option Nat :=
  if '0' ≤ c ∧ c ≤ '9' then some (c.toNat - 48)
  else if 'a' ≤ c ∧ c ≤ 'f' then some (c.toNat - 87)
  else if 'A' ≤ c ∧ c ≤ 'F' then some (c.toNat - 55)
  else none

/-- The value of four hexadecimal digits. -/
def hex4? (a b c d : Char) : Option Nat := do
  return (((← hexValue? a) * 16 + (← hexValue? b)) * 16 + (← hexValue? c)) * 16 + (← hexValue? d)

/-- The flaw of an escape whose four digits are not there: the text is too short when fewer than
four bytes of it are left. -/
def shortEscape (cs : List Char) : Flaw :=
  if (String.ofList cs).utf8ByteSize < 4 then .truncated else .malformed

/-- The character that a one-letter escape stands for. -/
def shortForm? (c : Char) : Option Char :=
  if c = '"' then some '"'
  else if c = '\\' then some '\\'
  else if c = '/' then some '/'
  else if c = 'b' then some (Char.ofNat 8)
  else if c = 'f' then some (Char.ofNat 12)
  else if c = 'n' then some '\n'
  else if c = 'r' then some '\r'
  else if c = 't' then some '\t'
  else none

/-- Whether the 16-bit unit is the first half of a pair. -/
def isHighHalf (n : Nat) : Bool := 0xD800 ≤ n && n ≤ 0xDBFF

/-- Whether the 16-bit unit is the second half of a pair. -/
def isLowHalf (n : Nat) : Bool := 0xDC00 ≤ n && n ≤ 0xDFFF

/-- The character that a pair of halves stands for. -/
def joinHalves (high low : Nat) : Char :=
  Char.ofNat ((high - 0xD800) * 0x400 + (low - 0xDC00) + 0x10000)

/-- Reads the characters of a text up to its closing quote; `seen` holds those before, the last one
first. Two halves of a pair must stand together. -/
def charsFrom (seen : List Char) : Reader (List Char)
  | [] => .error .truncated
  | '"' :: rest => .ok (seen.reverse, rest)
  | ['\\'] => .error .truncated
  | '\\' :: 'u' :: a :: b :: c :: d :: rest =>
    match hex4? a b c d with
    | none => .error (shortEscape (a :: b :: c :: d :: rest))
    | some n =>
      if isLowHalf n then .error .malformed
      else if isHighHalf n then
        match rest with
        | '\\' :: 'u' :: e :: f :: g :: h :: rest =>
          match hex4? e f g h with
          | none => .error (shortEscape (e :: f :: g :: h :: rest))
          | some m =>
            if isLowHalf m then charsFrom (joinHalves n m :: seen) rest else .error .malformed
        | [] => .error .truncated
        | ['\\'] => .error .truncated
        | '\\' :: 'u' :: rest => .error (shortEscape rest)
        | _ => .error .malformed
      else charsFrom (Char.ofNat n :: seen) rest
  | '\\' :: c :: rest =>
    if c = 'u' then .error (shortEscape rest)
    else match shortForm? c with
      | some x => charsFrom (x :: seen) rest
      | none => .error .malformed
  | c :: rest => if c.toNat < 0x20 then .error .malformed else charsFrom (c :: seen) rest

/-- Reads a text after its opening quote. -/
def chars : Reader String := fun cs =>
  match charsFrom [] cs with
  | .ok (s, rest) => .ok (String.ofList s, rest)
  | .error e => .error e

/-- Passes over a text after its opening quote. Of an escape by number only the four digits are
looked at. -/
def skipChars : Reader Unit
  | [] => .error .truncated
  | '"' :: rest => .ok ((), rest)
  | ['\\'] => .error .truncated
  | '\\' :: 'u' :: a :: b :: c :: d :: rest =>
    match hex4? a b c d with
    | none => .error (shortEscape (a :: b :: c :: d :: rest))
    | some _ => skipChars rest
  | '\\' :: c :: rest =>
    if c = 'u' then .error (shortEscape rest)
    else if (shortForm? c).isSome then skipChars rest else .error .malformed
  | c :: rest => if c.toNat < 0x20 then .error .malformed else skipChars rest

/-! ## Numbers -/

open Text (isDigit digitValue)

/-- Appends digits to a significand while it stays in an unsigned 64-bit word: the significand, how
many digits it took, and whether it took them all. -/
def absorb : (significand taken : Nat) → List Char → Nat × Nat × Bool
  | n, k, [] => (n, k, true)
  | n, k, c :: rest =>
    if n * 10 + digitValue c < Text.word64 then absorb (n * 10 + digitValue c) (k + 1) rest
    else (n, k, false)

/-- The number nearest to a power of ten. -/
def powerOfTen? (k : Nat) : Option Binary64 := Binary64.ofNat false (Nat.pow 10 k)

/-- Divides by `10 ^ 308` while the exponent of ten is below `-308`; nothing is left of a 64-bit
significand after three rounds, which `rounds` bounds. -/
def settle : (rounds : Nat) → Binary64 → Int → Binary64 × Int
  | 0, x, _ => (Binary64.zero x.negative, 0)
  | rounds + 1, x, e =>
    if -308 ≤ e then (x, e)
    else
      match (powerOfTen? 308).bind x.div with
      | none => (x, 0)
      | some y => settle rounds y (e + 308)

/-- The number `± significand · 10 ^ e`: the significand is rounded first, then the power of ten,
then their product or quotient. Too large a number is a flaw. -/
def assemble (negative : Bool) (significand : Nat) (e : Int) : Except Flaw Json :=
  match Binary64.ofNat false significand with
  | none => .error .malformed
  | some x =>
    let (x, e) := settle 4 x e
    if x.isZero then .ok (.float (Binary64.zero negative))
    else if 308 < e then .error .malformed
    else
      match (powerOfTen? e.natAbs).bind (if 0 ≤ e then x.mul else x.div) with
      | none => .error .malformed
      | some y => .ok (.float (y.withSign negative))

/-- The integer with the given sign and magnitude. A negative one outside a signed 64-bit word, and
zero with a minus sign, are floating-point numbers. -/
def signed (negative : Bool) (magnitude : Nat) : Except Flaw Json :=
  if !negative then .ok (.int magnitude)
  else if 1 ≤ magnitude ∧ magnitude ≤ 9223372036854775808 then .ok (.int (-(magnitude : Int)))
  else match Binary64.ofNat true magnitude with
    | some x => .ok (.float x)
    | none => .error .malformed

/-- Puts the characters that are left beside a number. -/
def withRest (rest : List Char) : Except Flaw Json → Except Flaw (Json × List Char)
  | .ok v => .ok (v, rest)
  | .error e => .error e

/-- Reads the power of ten after its letter. One beyond a signed 32-bit word makes the number too
large, or zero. -/
def exponentPart (negative : Bool) (significand : Nat) (e : Int) (cs : List Char) :
    Except Flaw (Json × List Char) :=
  let (down, cs) := match cs with
    | '+' :: rest => (false, rest)
    | '-' :: rest => (true, rest)
    | _ => (false, cs)
  match cs with
  | [] => .error .truncated
  | c :: _ =>
    if !isDigit c then .error .malformed
    else
      let n := Text.digitsValue (cs.takeWhile isDigit)
      let rest := cs.dropWhile isDigit
      if 2147483648 ≤ n then
        if significand ≠ 0 ∧ !down then .error .malformed
        else .ok (.float (Binary64.zero negative), rest)
      else withRest rest (assemble negative significand (if down then e - n else e + n))

/-- Reads an exponent if there is one and puts the number together. -/
def afterFraction (negative : Bool) (significand : Nat) (e : Int) (cs : List Char) :
    Except Flaw (Json × List Char) :=
  match cs with
  | c :: rest =>
    if c = 'e' ∨ c = 'E' then exponentPart negative significand e rest
    else withRest cs (assemble negative significand e)
  | [] => withRest [] (assemble negative significand e)

/-- Reads the digits after the point. Those that the significand cannot take do not count. -/
def fractionPart (negative : Bool) (significand : Nat) (e : Int) (cs : List Char) :
    Except Flaw (Json × List Char) :=
  let digits := cs.takeWhile isDigit
  let rest := cs.dropWhile isDigit
  if digits.isEmpty then .error (if rest.isEmpty then .truncated else .malformed)
  else
    let (n, taken, _) := absorb significand 0 digits
    afterFraction negative n (e - taken) rest

/-- Reads a number after its sign. -/
def number (negative : Bool) (cs : List Char) : Except Flaw (Json × List Char) :=
  let digits := cs.takeWhile isDigit
  let rest := cs.dropWhile isDigit
  match digits with
  | [] => .error (if rest.isEmpty then .truncated else .malformed)
  | '0' :: _ :: _ => .error .malformed
  | _ =>
    let (n, taken, all) := absorb 0 0 digits
    let dropped : Int := (digits.length : Int) - (taken : Int)
    match rest with
    | '.' :: rest => fractionPart negative n dropped rest
    | c :: _ =>
      if c = 'e' ∨ c = 'E' then afterFraction negative n dropped rest
      else if all then withRest rest (signed negative n)
      else withRest rest (assemble negative n dropped)
    | [] =>
      if all then withRest [] (signed negative n) else withRest [] (assemble negative n dropped)

/-- Passes over the digits of an exponent after its letter. -/
def skipExponent (cs : List Char) : Except Flaw (Unit × List Char) :=
  let cs := match cs with
    | '+' :: rest => rest
    | '-' :: rest => rest
    | _ => cs
  if (cs.takeWhile isDigit).isEmpty then .error .malformed else .ok ((), cs.dropWhile isDigit)

/-- Passes over an exponent if there is one. -/
def skipAfterFraction (cs : List Char) : Except Flaw (Unit × List Char) :=
  match cs with
  | c :: rest => if c = 'e' ∨ c = 'E' then skipExponent rest else .ok ((), cs)
  | [] => .ok ((), [])

/-- Passes over a number after its sign. -/
def skipNumber (cs : List Char) : Except Flaw (Unit × List Char) :=
  let digits := cs.takeWhile isDigit
  let rest := cs.dropWhile isDigit
  match digits with
  | [] => .error .malformed
  | '0' :: _ :: _ => .error .malformed
  | _ =>
    match rest with
    | '.' :: rest =>
      if (rest.takeWhile isDigit).isEmpty then .error .malformed
      else skipAfterFraction (rest.dropWhile isDigit)
    | _ => skipAfterFraction rest

/-! ## Lists and objects -/

/-- Reads items up to the end of a list, each after the first behind a comma; `seen` holds the
items before, the last one first. Every item takes a character at least, so `fuel` may be the
length of the text. -/
def itemsFrom {α : Type} (item : Reader α) : (fuel : Nat) → (first : Bool) → (seen : List α) →
    Reader (List α)
  | 0, _, _, _ => .error .malformed
  | fuel + 1, first, seen, cs =>
    match skipSpace cs with
    | [] => .error .truncated
    | ']' :: rest => .ok (seen.reverse, rest)
    | c :: rest =>
      if first then
        match item (c :: rest) with
        | .ok (x, rest) => itemsFrom item fuel false (x :: seen) rest
        | .error e => .error e
      else if c = ',' then
        match skipSpace rest with
        | [] => .error .truncated
        | ']' :: _ => .error .malformed
        | c :: rest =>
          match item (c :: rest) with
          | .ok (x, rest) => itemsFrom item fuel false (x :: seen) rest
          | .error e => .error e
      else .error .malformed

/-- Reads a list after its opening bracket. -/
def items {α : Type} (item : Reader α) : Reader (List α) := fun cs =>
  itemsFrom item (cs.length + 1) true [] cs

/-- Passes the colon between a key and its value. -/
def colon : Reader Unit := fun cs =>
  match skipSpace cs with
  | [] => .error .truncated
  | ':' :: rest => .ok ((), rest)
  | _ :: _ => .error .malformed

/-- Reads members up to the end of an object, each after the first behind a comma, and folds each
into what is known so far. `member` is given the key and reads what follows it, colon included. -/
def membersFrom {σ : Type} (member : String → σ → Reader σ) : (fuel : Nat) → (first : Bool) →
    (known : σ) → Reader σ
  | 0, _, _, _ => .error .malformed
  | fuel + 1, first, known, cs =>
    match skipSpace cs with
    | [] => .error .truncated
    | '\x7d' :: rest => .ok (known, rest)
    | c :: rest =>
      if first then
        if c = '"' then
          match chars rest with
          | .error e => .error e
          | .ok (key, rest) =>
            match member key known rest with
            | .ok (known, rest) => membersFrom member fuel false known rest
            | .error e => .error e
        else .error .malformed
      else if c = ',' then
        match skipSpace rest with
        | [] => .error .truncated
        | '"' :: rest =>
          match chars rest with
          | .error e => .error e
          | .ok (key, rest) =>
            match member key known rest with
            | .ok (known, rest) => membersFrom member fuel false known rest
            | .error e => .error e
        | _ :: _ => .error .malformed
      else .error .malformed

/-- Reads an object after its opening brace. -/
def members {σ : Type} (member : String → σ → Reader σ) (start : σ) : Reader σ := fun cs =>
  membersFrom member (cs.length + 1) true start cs

/-- Reads the value of a member behind its colon and puts it among the others by key. -/
def sortedMember {α : Type} (value : Reader α) (key : String) (known : List (String × α)) :
    Reader (List (String × α)) := fun cs =>
  match colon cs with
  | .error e => .error e
  | .ok (_, rest) =>
    match value rest with
    | .error e => .error e
    | .ok (x, rest) => .ok (insertMember key x known, rest)

/-! ## Values -/

/-- Gives what is read another form. -/
def mapReader {α β : Type} (f : α → β) (r : Reader α) : Reader β := fun cs =>
  match r cs with
  | .ok (x, rest) => .ok (f x, rest)
  | .error e => .error e

/-- Reads a value that is neither a list nor an object. -/
def scalar : Reader Json
  | [] => .error .truncated
  | 'n' :: rest => mapReader (fun _ => .null) (word ['u', 'l', 'l']) rest
  | 't' :: rest => mapReader (fun _ => .bool true) (word ['r', 'u', 'e']) rest
  | 'f' :: rest => mapReader (fun _ => .bool false) (word ['a', 'l', 's', 'e']) rest
  | '"' :: rest => mapReader .text chars rest
  | '-' :: rest => number true rest
  | c :: rest => if isDigit c then number false (c :: rest) else .error .malformed

/-- Reads any value in which lists and objects nest at most `depth` deep. -/
def value : (depth : Nat) → Reader Json
  | 0, cs =>
    match skipSpace cs with
    | '[' :: _ => .error .malformed
    | '\x7b' :: _ => .error .malformed
    | cs => scalar cs
  | depth + 1, cs =>
    match skipSpace cs with
    | '[' :: rest => mapReader .list (items (value depth)) rest
    | '\x7b' :: rest => mapReader .object (members (sortedMember (value depth)) []) rest
    | cs => scalar cs

/-! ## Values that do not count -/

/-- Which bracket an unfinished list or object waits for. -/
inductive Open where
  | list
  | object
  deriving DecidableEq

/-- Passes over the key and colon before the next value of an object; nothing for a list. -/
def skipKey : Open → Reader Unit
  | .list, cs => .ok ((), cs)
  | .object, cs =>
    match skipSpace cs with
    | [] => .error .truncated
    | '"' :: rest =>
      match skipChars rest with
      | .ok (_, rest) => colon rest
      | .error e => .error e
    | _ :: _ => .error .malformed

/-- What passing over one scalar or one opening bracket leads to. -/
def skipHead : Reader (Option Open) := fun cs =>
  match skipSpace cs with
  | [] => .error .truncated
  | 'n' :: rest => mapReader (fun _ => none) (word ['u', 'l', 'l']) rest
  | 't' :: rest => mapReader (fun _ => none) (word ['r', 'u', 'e']) rest
  | 'f' :: rest => mapReader (fun _ => none) (word ['a', 'l', 's', 'e']) rest
  | '"' :: rest => mapReader (fun _ => none) skipChars rest
  | '-' :: rest => mapReader (fun _ => none) skipNumber rest
  | '[' :: rest => .ok (some .list, rest)
  | '\x7b' :: rest => .ok (some .object, rest)
  | c :: rest =>
    if isDigit c then mapReader (fun _ => none) skipNumber (c :: rest) else .error .malformed

/-- Closes every list and object that ends here: what is still open, and whether another value of
the innermost one follows. `comma` says that a value stands right before, so a comma may follow.
-/
def skipClose : (comma : Bool) → (stack : List Open) → Reader (List Open)
  | _, [], cs => .ok ([], cs)
  | comma, top :: outer, cs =>
    match skipSpace cs with
    | [] => .error .truncated
    | c :: rest =>
      if comma ∧ c = ',' then .ok (top :: outer, rest)
      else if c = (match top with | .list => ']' | .object => '\x7d') then
        skipClose true outer rest
      else if comma then .error .malformed
      else .ok (top :: outer, c :: rest)

/-- Passes over values until nothing is open any more. Every round takes a character at least, so
`fuel` may be the length of the text. -/
def skipFrom : (fuel : Nat) → (stack : List Open) → Reader Unit
  | 0, _, _ => .error .malformed
  | fuel + 1, stack, cs =>
    match skipHead cs with
    | .error e => .error e
    | .ok (head, rest) =>
      let closed := match head with
        | none => skipClose true stack rest
        | some o => skipClose false (o :: stack) rest
      match closed with
      | .error e => .error e
      | .ok ([], rest) => .ok ((), rest)
      | .ok (top :: outer, rest) =>
        match skipKey top rest with
        | .error e => .error e
        | .ok (_, rest) => skipFrom fuel (top :: outer) rest

/-- Passes over any value, however deep. -/
def skip : Reader Unit := fun cs => skipFrom (cs.length + 1) [] cs

/-! ## Whole texts -/

/-- Reads a whole text, blanks around the value allowed. -/
def whole {α : Type} (r : Reader α) (s : String) : Except Flaw α :=
  match r s.toList with
  | .error e => .error e
  | .ok (x, rest) => if (skipSpace rest).isEmpty then .ok x else .error .malformed

/-- The value that a text stands for. -/
def parse (s : String) : Except Flaw Json := whole (value depthLimit) s

end SharedWatch.Json
