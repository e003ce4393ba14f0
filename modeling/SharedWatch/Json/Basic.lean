import SharedWatch.Number.Binary64

/-!
JSON values.

An integer is exact; every other number is a finite floating-point number. The members of an object
are kept in the order of their list; `Json.sorted` builds an object whose keys ascend, a later
member of one key replacing an earlier one, and that is the form in which whole documents are read.
-/

namespace SharedWatch

inductive Json where
  | null
  | bool (b : Bool)
  | int (n : Int)
  | float (x : Binary64)
  | text (s : String)
  | list (items : List Json)
  | object (members : List (String × Json))

namespace Json

mutual

def decEq : (a b : Json) → Decidable (a = b)
  | .null, .null => isTrue rfl
  | .bool a, .bool b => if h : a = b then isTrue (by rw [h]) else isFalse (by simpa using h)
  | .int a, .int b => if h : a = b then isTrue (by rw [h]) else isFalse (by simpa using h)
  | .float a, .float b => if h : a = b then isTrue (by rw [h]) else isFalse (by simpa using h)
  | .text a, .text b => if h : a = b then isTrue (by rw [h]) else isFalse (by simpa using h)
  | .list a, .list b =>
    match decEqItems a b with
    | isTrue h => isTrue (by rw [h])
    | isFalse h => isFalse (by simpa using h)
  | .object a, .object b =>
    match decEqMembers a b with
    | isTrue h => isTrue (by rw [h])
    | isFalse h => isFalse (by simpa using h)
  | .null, .bool _ | .null, .int _ | .null, .float _ | .null, .text _ | .null, .list _
  | .null, .object _ | .bool _, .null | .bool _, .int _ | .bool _, .float _ | .bool _, .text _
  | .bool _, .list _ | .bool _, .object _ | .int _, .null | .int _, .bool _ | .int _, .float _
  | .int _, .text _ | .int _, .list _ | .int _, .object _ | .float _, .null | .float _, .bool _
  | .float _, .int _ | .float _, .text _ | .float _, .list _ | .float _, .object _
  | .text _, .null | .text _, .bool _ | .text _, .int _ | .text _, .float _ | .text _, .list _
  | .text _, .object _ | .list _, .null | .list _, .bool _ | .list _, .int _ | .list _, .float _
  | .list _, .text _ | .list _, .object _ | .object _, .null | .object _, .bool _
  | .object _, .int _ | .object _, .float _ | .object _, .text _ | .object _, .list _ =>
    isFalse (by simp)

def decEqItems : (a b : List Json) → Decidable (a = b)
  | [], [] => isTrue rfl
  | [], _ :: _ => isFalse (by simp)
  | _ :: _, [] => isFalse (by simp)
  | x :: xs, y :: ys =>
    match decEq x y, decEqItems xs ys with
    | isTrue h, isTrue h' => isTrue (by rw [h, h'])
    | isFalse h, _ => isFalse (by simp [h])
    | _, isFalse h => isFalse (by simp [h])

def decEqMembers : (a b : List (String × Json)) → Decidable (a = b)
  | [], [] => isTrue rfl
  | [], _ :: _ => isFalse (by simp)
  | _ :: _, [] => isFalse (by simp)
  | (k, x) :: xs, (l, y) :: ys =>
    if hk : k = l then
      match decEq x y, decEqMembers xs ys with
      | isTrue h, isTrue h' => isTrue (by rw [hk, h, h'])
      | isFalse h, _ => isFalse (by simp [h])
      | _, isFalse h => isFalse (by simp [h])
    else isFalse (by simp [hk])

end

instance : DecidableEq Json := decEq

/-- Puts a member where its key belongs among ascending keys, in place of one with that key. -/
def insertMember {α : Type} (key : String) (value : α) : List (String × α) → List (String × α)
  | [] => [(key, value)]
  | (k, v) :: rest =>
    if key < k then (key, value) :: (k, v) :: rest
    else if k < key then (k, v) :: insertMember key value rest
    else (key, value) :: rest

/-- The members by ascending key; the last one of a key counts. -/
def sortMembers {α : Type} (members : List (String × α)) : List (String × α) :=
  members.foldl (fun acc m => insertMember m.1 m.2 acc) []

/-- The object with the given members, keys ascending. -/
def sorted (members : List (String × Json)) : Json := .object (sortMembers members)

/-- The value of the first member with the key. -/
def member? {α : Type} (key : String) : List (String × α) → Option α
  | [] => none
  | (k, v) :: rest => if k = key then some v else member? key rest

/-- The member of an object under the key; nothing for any other value. -/
def get? (key : String) : Json → Option Json
  | .object members => member? key members
  | _ => none

def text? : Json → Option String
  | .text s => some s
  | _ => none

def members? : Json → Option (List (String × Json))
  | .object members => some members
  | _ => none

def items? : Json → Option (List Json)
  | .list items => some items
  | _ => none

def bool? : Json → Option Bool
  | .bool b => some b
  | _ => none

/-- The integer, if the value is one that lies from `low` to `high`. -/
def intWithin? (low high : Int) : Json → Option Int
  | .int n => if low ≤ n ∧ n ≤ high then some n else none
  | _ => none

/-- The integer, if the value is one that fits a signed 64-bit word. -/
def int64? (v : Json) : Option Int := 
  v.intWithin? (-9223372036854775808) 9223372036854775807

end Json

end SharedWatch
