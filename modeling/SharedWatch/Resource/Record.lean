import SharedWatch.Resource.TextMap

/-!
Resources as they are seen on a watch.

A record holds what filtering and caching need of one state of a resource beside the whole object.
`ofRaw` shapes a record from an object: a metadata field of another type than expected counts as
absent.
-/

namespace SharedWatch

/-- The identity of a resource among those of one kind: its namespace, empty for a resource outside
all namespaces, and its name. -/
structure ResourceName where
  ns : String
  name : String
  deriving DecidableEq, Repr

/-- The identity of a resource among all kinds. -/
structure ResourceId where
  kind : String
  ns : String
  name : String
  deriving DecidableEq, Repr

/-- A key as shown to users; the namespace is left out when empty. -/
def ResourceId.display (k : ResourceId) : String :=
  if k.ns = "" then k.kind ++ ":" ++ k.name else k.kind ++ ":" ++ k.ns ++ "/" ++ k.name

/-- One state of a resource. -/
structure Record where
  ns : String
  name : String
  uid : Option String
  /-- The version token that the server gave to this state. -/
  version : String
  /-- How often the specification was changed; zero when the kind does not count. -/
  generation : Int
  labels : TextMap
  annotations : TextMap
  raw : Json
  deriving DecidableEq

namespace Record

def empty : Record :=
  { ns := "", name := "", uid := none, version := "", generation := 0,
    labels := .empty, annotations := .empty, raw := .null }

/-- The resource that the record is a state of. -/
def resource (r : Record) : ResourceName := ⟨r.ns, r.name⟩

/-- The key of the record's resource among those of the given kind. -/
def key (r : Record) (kind : String) : ResourceId := ⟨kind, r.ns, r.name⟩

/-- The metadata field of an object. -/
def metaField? (raw : Json) (field : String) : Option Json :=
  (raw.get? "metadata").bind (Json.get? field)

/-- A metadata text, empty when absent or no text. -/
def metaText (raw : Json) (field : String) : String :=
  ((metaField? raw field).bind Json.text?).getD ""

/-- The texts among the values of a metadata map. -/
def metaPairs (raw : Json) (field : String) : TextMap :=
  .ofList ((((metaField? raw field).bind Json.members?).getD []).filterMap
    fun m => m.2.text?.map fun s => (m.1, s))

/-- Shapes a record from an object. -/
def ofRaw (raw : Json) : Record :=
  { ns := metaText raw "namespace"
    name := metaText raw "name"
    uid := (metaField? raw "uid").bind Json.text?
    version := metaText raw "resourceVersion"
    generation := ((metaField? raw "generation").bind Json.int64?).getD 0
    labels := metaPairs raw "labels"
    annotations := metaPairs raw "annotations"
    raw }

end Record

/-- Where a single read was answered. -/
inductive Origin where
  | remote
  /-- By the cache, possibly out of date. -/
  | cache
  deriving DecidableEq, Repr

/-- A single read: the record and where it came from. -/
structure Read where
  record : Record
  origin : Origin
  deriving DecidableEq

end SharedWatch
