import SharedWatch.Json.Printer
import SharedWatch.Json.Shape
import SharedWatch.Resource.Record

/-!
Records, keys and single reads as JSON.

`toJson` writes a value with its fields in a fixed order, `reader` reads it back; an absent uid is
written as `null` and may be left out when read.
-/

namespace SharedWatch

open Json (FieldReader Reader)

/-- Text that may be absent, as JSON. -/
def Json.ofText? (s : Option String) : Json := (s.map Json.text).getD .null

namespace TextMap

def reader (depth : Nat) : Reader TextMap :=
  Json.mapReader ofList (Json.mapValue (fun _ => Json.textValue) depth)

end TextMap

namespace ResourceId

def toJson (k : ResourceId) : Json :=
  .object [("kind", .text k.kind), ("namespace", .text k.ns), ("name", .text k.name)]

structure Draft where
  kind : Option String
  ns : Option String
  name : Option String

def fields : List (FieldReader Draft) :=
  [ .of "kind" (·.kind) (fun d x => { d with kind := some x }) fun _ => Json.textValue,
    .of "namespace" (·.ns) (fun d x => { d with ns := some x }) fun _ => Json.textValue,
    .of "name" (·.name) (fun d x => { d with name := some x }) fun _ => Json.textValue ]

def Draft.finish (d : Draft) : Option ResourceId :=
  return ⟨← d.kind, ← d.ns, ← d.name⟩

def reader : Nat → Reader ResourceId := Json.recordValue fields ⟨none, none, none⟩ Draft.finish

end ResourceId

namespace Record

def toJson (r : Record) : Json :=
  .object [
    ("namespace", .text r.ns), ("name", .text r.name), ("uid", .ofText? r.uid),
    ("resource_version", .text r.version), ("generation", .int r.generation),
    ("labels", r.labels.toJson), ("annotations", r.annotations.toJson), ("raw", r.raw)]

structure Draft where
  ns : Option String
  name : Option String
  uid : Option (Option String)
  version : Option String
  generation : Option Int
  labels : Option TextMap
  annotations : Option TextMap
  raw : Option Json

def fields : List (FieldReader Draft) :=
  [ .of "namespace" (·.ns) (fun d x => { d with ns := some x }) fun _ => Json.textValue,
    .of "name" (·.name) (fun d x => { d with name := some x }) fun _ => Json.textValue,
    .of "uid" (·.uid) (fun d x => { d with uid := some x }) fun _ => Json.optional Json.textValue,
    .of "resource_version" (·.version) (fun d x => { d with version := some x })
      fun _ => Json.textValue,
    .of "generation" (·.generation) (fun d x => { d with generation := some x })
      fun _ => Json.int64Value,
    .of "labels" (·.labels) (fun d x => { d with labels := some x }) TextMap.reader,
    .of "annotations" (·.annotations) (fun d x => { d with annotations := some x })
      TextMap.reader,
    .of "raw" (·.raw) (fun d x => { d with raw := some x }) Json.value ]

/-- The record, if all of it but perhaps the uid is known. -/
def Draft.finish (d : Draft) : Option Record :=
  return {
    ns := ← d.ns, name := ← d.name, uid := d.uid.getD none, version := ← d.version,
    generation := ← d.generation, labels := ← d.labels, annotations := ← d.annotations,
    raw := ← d.raw }

def reader : Nat → Reader Record :=
  Json.recordValue fields ⟨none, none, none, none, none, none, none, none⟩ Draft.finish

end Record

namespace Origin

def table : List (String × Origin) := [("Remote", .remote), ("Cache", .cache)]

def name : Origin → String
  | .remote => "Remote"
  | .cache => "Cache"

def reader : Nat → Reader Origin := Json.nameValue table

end Origin

namespace Read

def toJson (r : Read) : Json :=
  .object [("record", r.record.toJson), ("origin", .text r.origin.name)]

structure Draft where
  record : Option Record
  origin : Option Origin

def fields : List (FieldReader Draft) :=
  [ .of "record" (·.record) (fun d x => { d with record := some x }) Record.reader,
    .of "origin" (·.origin) (fun d x => { d with origin := some x }) Origin.reader ]

def Draft.finish (d : Draft) : Option Read :=
  return ⟨← d.record, ← d.origin⟩

def reader : Nat → Reader Read := Json.recordValue fields ⟨none, none⟩ Draft.finish

end Read

end SharedWatch
