import SharedWatch.Json.Reader

/-!
Readers for values of a known shape.

A record is read from an object with its fields in any order, unknown ones skipped, or from a list
of its fields in order. A choice is read from the name of an alternative, or from an object whose
only member is that name with its content. The first flaw from left to right is reported; a field
that is missing is noticed at the closing brace.
-/

namespace SharedWatch.Json

/-! ## Single values -/

/-- The flaw of what comes next when it is not of the shape asked for: its own flaw if it has one.
-/
def wrongShape (cs : List Char) : Flaw :=
  match cs with
  | '[' :: _ => .mismatched
  | '\x7b' :: _ => .mismatched
  | _ =>
    match scalar cs with
    | .ok _ => .mismatched
    | .error e => e

def textValue : Reader String := fun cs =>
  match skipSpace cs with
  | '"' :: rest => chars rest
  | cs => .error (wrongShape cs)

def boolValue : Reader Bool := fun cs =>
  match skipSpace cs with
  | 't' :: rest => mapReader (fun _ => true) (word ['r', 'u', 'e']) rest
  | 'f' :: rest => mapReader (fun _ => false) (word ['a', 'l', 's', 'e']) rest
  | cs => .error (wrongShape cs)

/-- Reads an integer from `low` to `high`. -/
def intValue (low high : Int) : Reader Int := fun cs =>
  let cs := skipSpace cs
  let num : Except Flaw (Json × List Char) := match cs with
    | '-' :: rest => number true rest
    | c :: rest => if Text.isDigit c then number false (c :: rest) else .error (wrongShape cs)
    | [] => .error .truncated
  match num with
  | .error e => .error e
  | .ok (v, rest) =>
    match v.intWithin? low high with
    | some n => .ok (n, rest)
    | none => .error .mismatched

/-- Reads an integer of a signed 64-bit word. -/
def int64Value : Reader Int := intValue (-9223372036854775808) 9223372036854775807

/-- Reads nothing from `null` and a value from anything else. -/
def optional {α : Type} (r : Reader α) : Reader (Option α) := fun cs =>
  match skipSpace cs with
  | 'n' :: rest => mapReader (fun _ => none) (word ['u', 'l', 'l']) rest
  | cs => mapReader some r cs

def nullValue : Reader Unit := fun cs =>
  match skipSpace cs with
  | 'n' :: rest => word ['u', 'l', 'l'] rest
  | cs => .error (wrongShape cs)

/-! ## Lists and maps -/

/-- Reads what stands after an opening character, one level deeper. -/
def within {α : Type} (opening : Char) (depth : Nat) (r : Nat → Reader α) : Reader α := fun cs =>
  match skipSpace cs with
  | [] => .error .truncated
  | c :: rest =>
    if c = opening then
      match depth with
      | 0 => .error .malformed
      | depth + 1 => r depth rest
    else .error (wrongShape (c :: rest))

def listValue {α : Type} (item : Nat → Reader α) (depth : Nat) : Reader (List α) :=
  within '[' depth fun depth => items (item depth)

/-- Reads an object with values of one shape, keys ascending. -/
def mapValue {α : Type} (item : Nat → Reader α) (depth : Nat) : Reader (List (String × α)) :=
  within '\x7b' depth fun depth => members (sortedMember (item depth)) []

/-- Whether another item of a list comes next; if so the reader stands at it, else at the closing
bracket. -/
def anotherItem (first : Bool) : Reader Bool := fun cs =>
  match skipSpace cs with
  | [] => .error .truncated
  | ']' :: rest => .ok (false, ']' :: rest)
  | c :: rest =>
    if first then .ok (true, c :: rest)
    else if c = ',' then
      match skipSpace rest with
      | [] => .error .truncated
      | ']' :: _ => .error .malformed
      | rest => .ok (true, rest)
    else .error .malformed

def closeList : Reader Unit := fun cs =>
  match skipSpace cs with
  | [] => .error .truncated
  | ']' :: rest => .ok ((), rest)
  | _ :: _ => .error .malformed

/-! ## Records -/

/-- A field of a record that is being read into a draft of type `σ`. -/
structure FieldReader (σ : Type) where
  name : String
  /-- Whether the draft has the field already. -/
  given : σ → Bool
  /-- Reads the field into the draft. -/
  read : (depth : Nat) → σ → Reader σ
  /-- Whether the field may be missing at the end of a list. -/
  spare : Bool

/-- A field that reads a value of one shape and puts it into the draft. -/
def FieldReader.of {σ α : Type} (name : String) (get : σ → Option α) (put : σ → α → σ)
    (r : Nat → Reader α) : FieldReader σ where
  name := name
  given draft := (get draft).isSome
  read depth draft := mapReader (put draft) (r depth)
  spare := false

/-- Reads the fields of a record from a list, in order. -/
def fieldsInOrder {σ : Type} (depth : Nat) : List (FieldReader σ) → (first : Bool) → σ → Reader σ
  | [], _, draft, cs => .ok (draft, cs)
  | f :: fs, first, draft, cs =>
    match anotherItem first cs with
    | .error e => .error e
    | .ok (false, rest) =>
      if f.spare then fieldsInOrder depth fs first draft rest else .error .mismatched
    | .ok (true, rest) =>
      match f.read depth draft rest with
      | .error e => .error e
      | .ok (draft, rest) => fieldsInOrder depth fs false draft rest

/-- Reads one member of a record's object into the draft: an unknown one is skipped, a second one of
a name is refused as soon as the name is read. -/
def fieldMember {σ : Type} (depth : Nat) (fields : List (FieldReader σ)) (key : String)
    (draft : σ) :
    Reader σ := fun cs =>
  match fields.find? (fun f => f.name == key) with
  | none =>
    match colon cs with
    | .error e => .error e
    | .ok (_, rest) => mapReader (fun _ => draft) skip rest
  | some f =>
    if f.given draft then .error .mismatched
    else
      match colon cs with
      | .error e => .error e
      | .ok (_, rest) => f.read depth draft rest

/-- Completes a draft, if nothing is missing. -/
def complete {σ α : Type} (finish : σ → Option α) : Except Flaw (σ × List Char) →
    Except Flaw (α × List Char)
  | .error e => .error e
  | .ok (draft, rest) =>
    match finish draft with
    | some x => .ok (x, rest)
    | none => .error .mismatched

/-- Reads a record from an object or from a list. -/
def recordValue {σ α : Type} (fields : List (FieldReader σ)) (start : σ) (finish : σ → Option α)
    (depth : Nat) : Reader α := fun cs =>
  match skipSpace cs with
  | '[' :: rest =>
    match depth with
    | 0 => .error .malformed
    | depth + 1 =>
      complete finish (match fieldsInOrder depth fields true start rest with
        | .error e => .error e
        | .ok (draft, rest) => mapReader (fun _ => draft) closeList rest)
  | '\x7b' :: rest =>
    match depth with
    | 0 => .error .malformed
    | depth + 1 => complete finish (members (fieldMember depth fields) start rest)
  | cs => .error (wrongShape cs)

/-! ## Objects that may say things twice -/

/-- A field of which the last value counts. -/
def FieldReader.last {σ α : Type} (name : String) (put : σ → α → σ) (r : Nat → Reader α) :
    FieldReader σ where
  name := name
  given _ := false
  read depth draft := mapReader (put draft) (r depth)
  spare := false

/-- Reads an object into a draft: unknown members are skipped, and none need be there. -/
def objectValue {σ : Type} (fields : List (FieldReader σ)) (start : σ) (depth : Nat) : Reader σ :=
  within '\x7b' depth fun depth => members (fieldMember depth fields) start

/-! ## Choices -/

/-- Reads the name of an alternative. -/
def alternative {α : Type} (table : List (String × α)) : Reader α := fun cs =>
  match textValue cs with
  | .error e => .error e
  | .ok (name, rest) =>
    match member? name table with
    | some x => .ok (x, rest)
    | none => .error .mismatched

/-- Reads a choice. `bare` is what the name of an alternative alone stands for, if anything, and
`content` reads the content that stands with the name in an object. -/
def choiceValue {α β : Type} (table : List (String × α)) (bare : α → Option β)
    (content : α → Nat → Reader β) (depth : Nat) : Reader β := fun cs =>
  match skipSpace cs with
  | [] => .error .truncated
  | '"' :: rest =>
    match alternative table ('"' :: rest) with
    | .error e => .error e
    | .ok (x, rest) =>
      match bare x with
      | some y => .ok (y, rest)
      | none => .error .mismatched
  | '\x7b' :: rest =>
    match depth with
    | 0 => .error .malformed
    | depth + 1 =>
      match alternative table rest with
      | .error e => .error e
      | .ok (x, rest) =>
        match colon rest with
        | .error e => .error e
        | .ok (_, rest) =>
          match content x depth rest with
          | .error e => .error e
          | .ok (y, rest) =>
            match skipSpace rest with
            | [] => .error .truncated
            | '\x7d' :: rest => .ok (y, rest)
            | _ :: _ => .error .malformed
  | _ :: _ => .error .malformed

/-- Reads one of a table of names that have no content. -/
def nameValue {α : Type} (table : List (String × α)) : Nat → Reader α :=
  choiceValue table some fun x _ => mapReader (fun _ => x) nullValue

/-- What is known of a choice whose name and content are members of their own. -/
structure Tagged (α β : Type) where
  name : Option α
  /-- The content, if it stands before the name: the characters from there on. -/
  held : Option (List Char)
  value : Option β

/-- Reads one of two members, the name of a choice and its content, into what is known. Content that
stands before the name is read again once the name is known. -/
def taggedMember {α β : Type} (tag content : String) (table : List (String × α))
    (read : α → Nat → Reader β) (depth : Nat) (key : String) (d : Tagged α β) :
    Reader (Tagged α β) := fun cs =>
  if (key = tag ∧ d.name.isSome) ∨ (key = content ∧ (d.held.isSome ∨ d.value.isSome)) then
    .error .mismatched
  else
    match colon cs with
    | .error e => .error e
    | .ok (_, cs) =>
      if key = tag then
        match nameValue table depth cs with
        | .error e => .error e
        | .ok (x, rest) =>
          match d.held with
          | none => .ok ({ d with name := some x }, rest)
          | some held =>
            match read x depth held with
            | .error e => .error e
            | .ok (y, _) => .ok ({ d with name := some x, value := some y }, rest)
      else if key = content then
        match d.name with
        | none => mapReader (fun _ => { d with held := some cs }) (value depth) cs
        | some x => mapReader (fun y => { d with value := some y }) (read x depth) cs
      else mapReader (fun _ => d) skip cs

/-- Reads a choice from an object with its name and its content as members, or from a list of the
two. -/
def taggedValue {α β : Type} (tag content : String) (table : List (String × α))
    (read : α → Nat → Reader β) (depth : Nat) : Reader β := fun cs =>
  match skipSpace cs with
  | '[' :: rest =>
    match depth with
    | 0 => .error .malformed
    | depth + 1 =>
      match anotherItem true rest with
      | .error e => .error e
      | .ok (false, _) => .error .mismatched
      | .ok (true, rest) =>
        match nameValue table depth rest with
        | .error e => .error e
        | .ok (x, rest) =>
          match anotherItem false rest with
          | .error e => .error e
          | .ok (false, _) => .error .mismatched
          | .ok (true, rest) =>
            match read x depth rest with
            | .error e => .error e
            | .ok (y, rest) => mapReader (fun _ => y) closeList rest
  | '\x7b' :: rest =>
    match depth with
    | 0 => .error .malformed
    | depth + 1 =>
      complete (·.value) (members (taggedMember tag content table read depth)
        ⟨none, none, none⟩ rest)
  | cs => .error (wrongShape cs)

/-- Reads one of a table of names that all have a text as their content. -/
def labelledText {α : Type} (table : List (String × (String → α))) : Nat → Reader α :=
  choiceValue table (fun _ => none) fun f _ => mapReader f textValue

end SharedWatch.Json
