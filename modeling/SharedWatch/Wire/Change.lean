import SharedWatch.Resource.Change
import SharedWatch.Wire.Record

/-!
Change events as JSON. The message is written only when there is one, and may be left out when read.
-/

namespace SharedWatch

open Json (FieldReader Reader)

namespace ChangeKind

def table : List (String × ChangeKind) :=
  [("Added", .added), ("Modified", .modified), ("Deleted", .deleted), ("Bookmark", .bookmark),
    ("Error", .error)]

def name : ChangeKind → String
  | .added => "Added"
  | .modified => "Modified"
  | .deleted => "Deleted"
  | .bookmark => "Bookmark"
  | .error => "Error"

def reader : Nat → Reader ChangeKind := Json.nameValue table

end ChangeKind

namespace Change

def toJson (e : Change) : Json :=
  .object (
    [("event_type", .text e.kind.name), ("object", e.object.toJson),
      ("resource_version", .text e.version)] ++
    match e.message with
    | some m => [("message", .text m)]
    | none => [])

structure Draft where
  kind : Option ChangeKind
  object : Option Record
  version : Option String
  message : Option (Option String)

/-- The fields of an event; the message may be missing at the end of a list. -/
def fields : List (FieldReader Draft) :=
  [ .of "event_type" (·.kind) (fun d x => { d with kind := some x }) ChangeKind.reader,
    .of "object" (·.object) (fun d x => { d with object := some x }) Record.reader,
    .of "resource_version" (·.version) (fun d x => { d with version := some x })
      fun _ => Json.textValue,
    { FieldReader.of "message" (·.message) (fun d x => { d with message := some x })
        (fun _ => Json.optional Json.textValue) with spare := true } ]

def Draft.finish (d : Draft) : Option Change :=
  return {
    kind := ← d.kind, object := ← d.object, version := ← d.version, message := d.message.getD none }

def reader : Nat → Reader Change :=
  Json.recordValue fields ⟨none, none, none, none⟩ Draft.finish

end Change

end SharedWatch
