import SharedWatch.Resource.Filter
import SharedWatch.Resource.Target
import SharedWatch.Wire.Record

/-!
Targets, filters and failures as JSON.
-/

namespace SharedWatch

open Json (FieldReader Reader)

namespace Target

def toJson (t : Target) : Json := .object [("gvk", .text t.gvk), ("namespace", .ofText? t.ns)]

structure Draft where
  gvk : Option String
  ns : Option (Option String)

def fields : List (FieldReader Draft) :=
  [ .of "gvk" (·.gvk) (fun d x => { d with gvk := some x }) fun _ => Json.textValue,
    .of "namespace" (·.ns) (fun d x => { d with ns := some x })
      fun _ => Json.optional Json.textValue ]

def Draft.finish (d : Draft) : Option Target := return ⟨← d.gvk, d.ns.getD none⟩

def reader : Nat → Reader Target := Json.recordValue fields ⟨none, none⟩ Draft.finish

end Target

namespace Selector

/-- A requirement as JSON: the key and the value in a list. -/
def toJson (s : Selector) : Json := .list [.text s.1, .text s.2]

def reader : Nat → Reader Selector :=
  fun depth => Json.within '[' depth fun _ cs =>
    match Json.anotherItem true cs with
    | .error e => .error e
    | .ok (false, _) => .error .mismatched
    | .ok (true, rest) =>
      match Json.textValue rest with
      | .error e => .error e
      | .ok (key, rest) =>
        match Json.anotherItem false rest with
        | .error e => .error e
        | .ok (false, _) => .error .mismatched
        | .ok (true, rest) =>
          match Json.textValue rest with
          | .error e => .error e
          | .ok (value, rest) => Json.mapReader (fun _ => (key, value)) Json.closeList rest

end Selector

namespace Filter

def toJson (f : Filter) : Json :=
  .object [
    ("labels", .list (f.labels.map Selector.toJson)),
    ("annotations", .list (f.annotations.map Selector.toJson)),
    ("wants_bookmarks", .bool f.bookmarks)]

structure Draft where
  labels : Option (List Selector)
  annotations : Option (List Selector)
  bookmarks : Option Bool

def fields : List (FieldReader Draft) :=
  [ .of "labels" (·.labels) (fun d x => { d with labels := some x })
      (Json.listValue Selector.reader),
    .of "annotations" (·.annotations) (fun d x => { d with annotations := some x })
      (Json.listValue Selector.reader),
    .of "wants_bookmarks" (·.bookmarks) (fun d x => { d with bookmarks := some x })
      fun _ => Json.boolValue ]

def Draft.finish (d : Draft) : Option Filter := return ⟨← d.labels, ← d.annotations, ← d.bookmarks⟩

def reader : Nat → Reader Filter := Json.recordValue fields ⟨none, none, none⟩ Draft.finish

end Filter

namespace WatchFailure

def table : List (String × (String → WatchFailure)) :=
  [("UnsupportedFilter", .unsupportedFilter), ("InvalidTarget", .invalidTarget),
    ("Upstream", .server)]

def toJson : WatchFailure → Json
  | .unsupportedFilter s => .object [("UnsupportedFilter", .text s)]
  | .invalidTarget s => .object [("InvalidTarget", .text s)]
  | .server s => .object [("Upstream", .text s)]

def reader : Nat → Reader WatchFailure := Json.labelledText table

end WatchFailure

namespace ServiceFailure

def table : List (String × (String → ServiceFailure)) :=
  [("Validation", .validation), ("NotFound", .notFound), ("Unavailable", .unavailable),
    ("Internal", .internal)]

def toJson : ServiceFailure → Json
  | .validation s => .object [("Validation", .text s)]
  | .notFound s => .object [("NotFound", .text s)]
  | .unavailable s => .object [("Unavailable", .text s)]
  | .internal s => .object [("Internal", .text s)]

def reader : Nat → Reader ServiceFailure := Json.labelledText table

end ServiceFailure

end SharedWatch
