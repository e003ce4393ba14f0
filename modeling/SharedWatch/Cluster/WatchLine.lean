import SharedWatch.Cluster.Failure
import SharedWatch.Cluster.Manifest
import SharedWatch.Resource.Change

/-!
The lines of a watch: one event each.

A line that ends too early counts as not sent. Any other line that is no event is a failure of the
stream, in the server's words if it has some.
-/

namespace SharedWatch.WatchLine

open Json (FieldReader Reader)

/-! ## Bookmarks -/

structure MarkMeta where
  version : Option String
  annotations : Option TextMap

def markFields : List (FieldReader MarkMeta) :=
  [ .of "resourceVersion" (·.version) (fun d x => { d with version := some x })
      fun _ => Json.textValue,
    { FieldReader.of "annotations" (·.annotations) (fun d x => { d with annotations := some x })
        TextMap.reader with spare := true } ]

/-- Reads the version that a bookmark's metadata holds. -/
def markVersion : Nat → Reader String := Json.recordValue markFields ⟨none, none⟩ (·.version)

structure Mark where
  version : Option String
  members : List (String × Json)

def markMember (depth : Nat) (key : String) (d : Mark) : Reader Mark := fun cs =>
  if key = "metadata" ∧ d.version.isSome then .error .mismatched
  else
    match Json.colon cs with
    | .error e => .error e
    | .ok (_, cs) =>
      if key = "metadata" then
        Json.mapReader (fun v => { d with version := some v }) (markVersion depth) cs
      else
        Json.mapReader (fun v => { d with members := d.members ++ [(key, v)] })
          (Json.value depth) cs

/-- The version of a bookmark that names its type. -/
def Mark.finish (d : Mark) : Option String :=
  if (Manifest.takeType none none d.members).1.isSome then d.version else none

/-- Reads a bookmark: its version. -/
def bookmark (depth : Nat) : Reader String := fun cs =>
  Json.complete Mark.finish
    (Json.within '\x7b' depth (fun depth => Json.members (markMember depth) ⟨none, []⟩) cs)

/-! ## Events -/

/-- The words of an error event. -/
def errorText (r : Refusal) : String := r.reason ++ " (" ++ toString r.code ++ "): " ++ r.message

/-- Reads what belongs to an event of a kind. -/
def content (kind : ChangeKind) (depth : Nat) : Reader Change :=
  match kind with
  | .bookmark => Json.mapReader .bookmark (bookmark depth)
  | .error => Json.mapReader (fun r => .error (errorText r)) (Refusal.reader depth)
  | kind => Json.mapReader (fun m => .ofRecord kind m.record) (Manifest.reader depth)

def kinds : List (String × ChangeKind) :=
  [.added, .modified, .deleted, .bookmark, .error].map fun k => (k.display, k)

def reader : Nat → Reader Change := Json.taggedValue "type" "object" kinds content

/-- The event on a line, or why there is none; nothing if the line counts as not sent. -/
def read? (line : String) : Option (Except Cause Change) :=
  match Json.whole (reader Json.depthLimit) line with
  | .ok e => some (.ok e)
  | .error .truncated => none
  | .error _ =>
    match Refusal.ofText? line with
    | some r => some (.error (.refused r))
    | none => some (.error .unreadable)

/-- A line without the carriage return at its end. -/
def trimReturn (line : List Char) : List Char :=
  if line.getLast? = some '\r' then line.dropLast else line

/-- The events of a watch's body. -/
def readAll (body : String) : List (Except Cause Change) :=
  ((Text.splitAt '\n' body.toList).map fun l => String.ofList (trimReturn l)).filterMap read?

end SharedWatch.WatchLine
