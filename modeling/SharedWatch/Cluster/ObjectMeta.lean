import SharedWatch.Cluster.Timestamp
import SharedWatch.Wire.Record

/-!
The metadata of a cluster's objects.

Every field may be absent, `null` counts as absent, and a value of another type than the field's
makes the object unreadable. Written, absent fields are left out and times are in universal time.
-/

namespace SharedWatch

open Json (FieldReader Reader)

/-- A point in time as JSON text. -/
def Timestamp.reader (_ : Nat) : Reader Timestamp := fun cs =>
  match Json.textValue cs with
  | .error e => .error e
  | .ok (s, rest) =>
    match Timestamp.parse? s with
    | some t => .ok (t, rest)
    | none => .error .mismatched

/-- The member of a field that is there. -/
def Json.memberOf {α : Type} (name : String) (encode : α → Json) (x : Option α) :
    List (String × Json) :=
  (x.map fun x => (name, encode x)).toList

/-- The object that another one belongs to. -/
structure OwnerReference where
  apiVersion : String
  kind : String
  name : String
  uid : String
  controller : Option Bool
  blockOwnerDeletion : Option Bool
  deriving DecidableEq, Repr

namespace OwnerReference

/-- The fields of an owner; a text that is absent is empty. -/
def fields : List (FieldReader OwnerReference) :=
  [ .last "apiVersion" (fun d x => { d with apiVersion := x.getD "" })
      fun _ => Json.optional Json.textValue,
    .last "kind" (fun d x => { d with kind := x.getD "" }) fun _ => Json.optional Json.textValue,
    .last "name" (fun d x => { d with name := x.getD "" }) fun _ => Json.optional Json.textValue,
    .last "uid" (fun d x => { d with uid := x.getD "" }) fun _ => Json.optional Json.textValue,
    .last "controller" (fun d x => { d with controller := x })
      fun _ => Json.optional Json.boolValue,
    .last "blockOwnerDeletion" (fun d x => { d with blockOwnerDeletion := x })
      fun _ => Json.optional Json.boolValue ]

def reader : Nat → Reader OwnerReference := Json.objectValue fields ⟨"", "", "", "", none, none⟩

def toJson (o : OwnerReference) : Json :=
  .sorted ([("apiVersion", .text o.apiVersion), ("kind", .text o.kind), ("name", .text o.name),
    ("uid", .text o.uid)] ++ Json.memberOf "controller" .bool o.controller ++
    Json.memberOf "blockOwnerDeletion" .bool o.blockOwnerDeletion)

end OwnerReference

/-- Somebody who manages some fields of an object. -/
structure FieldManager where
  apiVersion : Option String
  fieldsType : Option String
  fieldsV1 : Option Json
  manager : Option String
  operation : Option String
  subresource : Option String
  time : Option Timestamp
  deriving DecidableEq

namespace FieldManager

def fields : List (FieldReader FieldManager) :=
  [ .last "apiVersion" (fun d x => { d with apiVersion := x })
      fun _ => Json.optional Json.textValue,
    .last "fieldsType" (fun d x => { d with fieldsType := x })
      fun _ => Json.optional Json.textValue,
    .last "fieldsV1" (fun d x => { d with fieldsV1 := x }) fun n => Json.optional (Json.value n),
    .last "manager" (fun d x => { d with manager := x }) fun _ => Json.optional Json.textValue,
    .last "operation" (fun d x => { d with operation := x })
      fun _ => Json.optional Json.textValue,
    .last "subresource" (fun d x => { d with subresource := x })
      fun _ => Json.optional Json.textValue,
    .last "time" (fun d x => { d with time := x }) fun n => Json.optional (Timestamp.reader n) ]

def reader : Nat → Reader FieldManager :=
  Json.objectValue fields ⟨none, none, none, none, none, none, none⟩

def toJson (m : FieldManager) : Json :=
  .sorted (Json.memberOf "apiVersion" .text m.apiVersion ++
    Json.memberOf "fieldsType" .text m.fieldsType ++ Json.memberOf "fieldsV1" id m.fieldsV1 ++
    Json.memberOf "manager" .text m.manager ++ Json.memberOf "operation" .text m.operation ++
    Json.memberOf "subresource" .text m.subresource ++
    Json.memberOf "time" (fun t => .text t.display) m.time)

end FieldManager

structure ObjectMeta where
  annotations : Option TextMap
  creationTimestamp : Option Timestamp
  deletionGracePeriodSeconds : Option Int
  deletionTimestamp : Option Timestamp
  finalizers : Option (List String)
  generateName : Option String
  generation : Option Int
  labels : Option TextMap
  managedFields : Option (List FieldManager)
  name : Option String
  ns : Option String
  ownerReferences : Option (List OwnerReference)
  resourceVersion : Option String
  selfLink : Option String
  uid : Option String
  deriving DecidableEq

namespace ObjectMeta

def empty : ObjectMeta :=
  ⟨none, none, none, none, none, none, none, none, none, none, none, none, none, none, none⟩

def fields : List (FieldReader ObjectMeta) :=
  [ .last "annotations" (fun d x => { d with annotations := x })
      fun n => Json.optional (TextMap.reader n),
    .last "creationTimestamp" (fun d x => { d with creationTimestamp := x })
      fun n => Json.optional (Timestamp.reader n),
    .last "deletionGracePeriodSeconds" (fun d x => { d with deletionGracePeriodSeconds := x })
      fun _ => Json.optional Json.int64Value,
    .last "deletionTimestamp" (fun d x => { d with deletionTimestamp := x })
      fun n => Json.optional (Timestamp.reader n),
    .last "finalizers" (fun d x => { d with finalizers := x })
      fun n => Json.optional (Json.listValue (fun _ => Json.textValue) n),
    .last "generateName" (fun d x => { d with generateName := x })
      fun _ => Json.optional Json.textValue,
    .last "generation" (fun d x => { d with generation := x })
      fun _ => Json.optional Json.int64Value,
    .last "labels" (fun d x => { d with labels := x }) fun n => Json.optional (TextMap.reader n),
    .last "managedFields" (fun d x => { d with managedFields := x })
      fun n => Json.optional (Json.listValue FieldManager.reader n),
    .last "name" (fun d x => { d with name := x }) fun _ => Json.optional Json.textValue,
    .last "namespace" (fun d x => { d with ns := x }) fun _ => Json.optional Json.textValue,
    .last "ownerReferences" (fun d x => { d with ownerReferences := x })
      fun n => Json.optional (Json.listValue OwnerReference.reader n),
    .last "resourceVersion" (fun d x => { d with resourceVersion := x })
      fun _ => Json.optional Json.textValue,
    .last "selfLink" (fun d x => { d with selfLink := x }) fun _ => Json.optional Json.textValue,
    .last "uid" (fun d x => { d with uid := x }) fun _ => Json.optional Json.textValue ]

def reader : Nat → Reader ObjectMeta := Json.objectValue fields empty

/-- Metadata as JSON; the names of its members ascend. -/
def toJson (m : ObjectMeta) : Json :=
  .object (Json.memberOf "annotations" TextMap.toJson m.annotations ++
    Json.memberOf "creationTimestamp" (fun t => .text t.display) m.creationTimestamp ++
    Json.memberOf "deletionGracePeriodSeconds" .int m.deletionGracePeriodSeconds ++
    Json.memberOf "deletionTimestamp" (fun t => .text t.display) m.deletionTimestamp ++
    Json.memberOf "finalizers" (fun xs => .list (xs.map .text)) m.finalizers ++
    Json.memberOf "generateName" .text m.generateName ++
    Json.memberOf "generation" .int m.generation ++
    Json.memberOf "labels" TextMap.toJson m.labels ++
    Json.memberOf "managedFields" (fun xs => .list (xs.map FieldManager.toJson)) m.managedFields ++
    Json.memberOf "name" .text m.name ++ Json.memberOf "namespace" .text m.ns ++
    Json.memberOf "ownerReferences" (fun xs => .list (xs.map OwnerReference.toJson))
      m.ownerReferences ++
    Json.memberOf "resourceVersion" .text m.resourceVersion ++
    Json.memberOf "selfLink" .text m.selfLink ++ Json.memberOf "uid" .text m.uid)

end ObjectMeta

end SharedWatch
