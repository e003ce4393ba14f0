import SharedWatch.Resource.Failure
import SharedWatch.Resource.Record
import SharedWatch.Text.Blank

/-!
Which resources a subscriber wants.

A filter asks for labels and annotations; every one must hold, and the value `*` only asks for the
key. `Selector.parse` reads one requirement from a command line, `labelSelector` renders the labels
for a server, which cannot select by annotations.
-/

namespace SharedWatch

/-- One requirement: a key and the value it must have. -/
abbrev Selector := String × String

namespace Selector

/-- The value that any value of a present key meets. -/
def anyValue : String := "*"

/-- The characters before the first `=` and those after it, if there is one. -/
def splitEquals : List Char → Option (List Char × List Char)
  | [] => none
  | c :: rest =>
    if c = '=' then some ([], rest)
    else (splitEquals rest).map fun p => (c :: p.1, p.2)

/-- Reads `key=value`, or a bare key, which asks for any value. Blanks around either do not count.
-/
def parse (s : String) : Except WatchFailure Selector :=
  let (key, value) := match splitEquals s.toList with
    | some (k, v) => (Text.trimChars k, String.ofList (Text.trimChars v))
    | none => (Text.trimChars s.toList, anyValue)
  if key.isEmpty then .error (.emptyKey s) else .ok (String.ofList key, value)

/-- Whether a map of labels or annotations meets the requirement. -/
def holds (s : Selector) (present : TextMap) : Bool :=
  match present.find? s.1 with
  | none => false
  | some have_ => s.2 == anyValue || have_ == s.2

/-- The requirement in a server's notation. -/
def render (s : Selector) : String := if s.2 = anyValue then s.1 else s.1 ++ "=" ++ s.2

end Selector

/-- What a subscriber wants to be told. -/
structure Filter where
  labels : List Selector
  annotations : List Selector
  bookmarks : Bool
  deriving DecidableEq, Repr

namespace Filter

def everything : Filter := ⟨[], [], false⟩

/-- Whether a record meets every requirement. -/
def accepts (f : Filter) (r : Record) : Bool :=
  f.labels.all (·.holds r.labels) && f.annotations.all (·.holds r.annotations)

/-- The labels in a server's notation, nothing when there are none. -/
def labelSelector (f : Filter) : Except WatchFailure (Option String) :=
  if !f.annotations.isEmpty then .error (.annotationSelectors (f.annotations.map (·.1)))
  else if f.labels.isEmpty then .ok none
  else .ok (some (",".intercalate (f.labels.map Selector.render)))

end Filter

end SharedWatch
