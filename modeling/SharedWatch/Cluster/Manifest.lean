import SharedWatch.Cluster.ObjectMeta

/-!
The objects of a cluster, of any kind.

An object has its metadata, perhaps the name of its type, and whatever else. `Manifest.record`
shapes the record that is passed on: what manages the fields is left out of it.
-/

namespace SharedWatch

open Json (Reader)

/-- The name of an object's type. -/
structure TypeName where
  apiVersion : String
  kind : String
  deriving DecidableEq, Repr

structure Manifest where
  /-- The type, when the object names it in full. -/
  type : Option TypeName
  metadata : ObjectMeta
  /-- All other members, in the order in which they were read. -/
  rest : List (String × Json)
  deriving DecidableEq

namespace Manifest

/-- Takes the name of the type out of an object's members. Half a name is lost; from a member that
cannot be part of a name on, nothing is taken. -/
def takeType (apiVersion kind : Option String) :
    List (String × Json) → Option TypeName × List (String × Json)
  | [] => (do return ⟨← apiVersion, ← kind⟩, [])
  | (key, v) :: rest =>
    if key = "apiVersion" then
      match apiVersion, v.text? with
      | none, some s => takeType (some s) kind rest
      | _, _ => (none, rest)
    else if key = "kind" then
      match kind, v.text? with
      | none, some s => takeType apiVersion (some s) rest
      | _, _ => (none, rest)
    else
      let (type, others) := takeType apiVersion kind rest
      (type, (key, v) :: others)

structure Draft where
  metadata : Option ObjectMeta
  members : List (String × Json)

def member (depth : Nat) (key : String) (d : Draft) : Reader Draft := fun cs =>
  if key = "metadata" ∧ d.metadata.isSome then .error .mismatched
  else
    match Json.colon cs with
    | .error e => .error e
    | .ok (_, cs) =>
      if key = "metadata" then
        Json.mapReader (fun m => { d with metadata := some m }) (ObjectMeta.reader depth) cs
      else
        Json.mapReader (fun v => { d with members := d.members ++ [(key, v)] })
          (Json.value depth) cs

def Draft.finish (d : Draft) : Manifest :=
  let (type, rest) := takeType none none d.members
  ⟨type, d.metadata.getD .empty, rest⟩

def reader (depth : Nat) : Reader Manifest :=
  Json.mapReader Draft.finish
    (Json.within '\x7b' depth fun depth => Json.members (member depth) ⟨none, []⟩)

def toJson (m : Manifest) : Json :=
  let type := (m.type.map fun t =>
    [("apiVersion", Json.text t.apiVersion), ("kind", .text t.kind)]).getD []
  .sorted (type ++ [("metadata", m.metadata.toJson)] ++ m.rest)

def without (key : String) : Json → Json
  | .object members => .object (members.filter fun x => x.1 != key)
  | v => v

/-- An object without what manages its fields. -/
def withoutManagers : Json → Json
  | .object members =>
    .object (members.map fun x =>
      if x.1 = "metadata" then (x.1, without "managedFields" x.2) else x)
  | v => v

def record (m : Manifest) : Record :=
  { ns := m.metadata.ns.getD ""
    name := m.metadata.name.getD ""
    uid := m.metadata.uid
    version := m.metadata.resourceVersion.getD ""
    generation := m.metadata.generation.getD 0
    labels := m.metadata.labels.getD .empty
    annotations := m.metadata.annotations.getD .empty
    raw := withoutManagers m.toJson }

end Manifest

end SharedWatch
