import SharedWatch.Cluster.Discovery
import SharedWatch.Cluster.WatchLine
import SharedWatch.Connection.Request

/-!
Watching and reading the objects of a cluster.

A kind is looked up in the cluster when it is first asked for and remembered when it was found. A
watch without a resume point starts at version `0`, which lets the server replay what it has.
-/

namespace SharedWatch

/-- A cluster with what is remembered of it. -/
structure Cluster (σ : Type) where
  server : σ
  /-- The kinds that were found, by their keys. -/
  known : List (String × ResourceKind)
  /-- How often the kinds of the cluster were looked up. -/
  discoveries : Nat
  /-- The requests for objects, in order. -/
  sent : List Address
  /-- What is left on each open stream. -/
  streams : List (List StreamItem)

namespace Cluster

variable {σ : Type}

def new (server : σ) : Cluster σ := ⟨server, [], 0, [], []⟩

def resolve [HttpServer σ] (c : Cluster σ) (key : String) :
    Except ClusterFailure ResourceKind × Cluster σ :=
  match c.known.lookup key with
  | some k => (.ok k, c)
  | none =>
    match Gvk.parse? key with
    | none => (.error (.invalid (Gvk.invalidKey key)), c)
    | some gvk =>
      let (kinds, server) := (Discovery.run : Discovery.Exchange σ _).run c.server
      let c := { c with server, discoveries := c.discoveries + 1 }
      match kinds with
      | .error cause => (.error (.discovery cause), c)
      | .ok kinds =>
        match kinds.find? fun k => k.gvk == gvk with
        | none => (.error (.invalid gvk.notFound), c)
        | some k => (.ok k, { c with known := (key, k) :: c.known })

/-- The path of the objects of a kind, in one namespace if one is given and the kind has them. -/
def path (k : ResourceKind) (ns : Option String) : String :=
  let within := match k.namespaced, ns with
    | true, some ns => "namespaces/" ++ ns ++ "/"
    | _, _ => ""
  (if k.group = "" then "/api/" else "/apis/") ++ k.apiVersion ++ "/" ++ within ++ k.plural

/-- Sends a request; the answer, or why there is none. -/
def send [HttpServer σ] (c : Cluster σ) (address : Option Address) :
    Except Cause Response × Cluster σ :=
  match address with
  | none => (.error .unsendable, c)
  | some a =>
    let (answer, server) := HttpServer.respond c.server a
    (match answer with
      | none => .error .unreachable
      | some r => .ok r, { c with server, sent := c.sent ++ [a] })

/-! ## Watching -/

/-- After how many seconds at least a server would not close a stream by itself. -/
def timeoutLimit : Nat := 295

/-- The version that a watch starts from. -/
def startVersion (request : OpenRequest) : String := request.resume.getD "0"

def watchQuery (request : OpenRequest) : List (String × String) :=
  [("watch", "true"), ("timeoutSeconds", toString (request.timeout.getD 290))] ++
    (request.labelSelector.map fun s => ("labelSelector", s)).toList ++
    (if request.bookmarks then [("allowWatchBookmarks", "true")] else []) ++
    [("resourceVersion", startVersion request)]

/-- The address of a watch, if its timeout is short enough. -/
def watchAddress? (k : ResourceKind) (ns : Option String) (request : OpenRequest) :
    Option Address :=
  if request.timeout.any (timeoutLimit ≤ ·) then none
  else Address.of? (path k ns ++ "?") (watchQuery request)

/-- Watches a target: the events and failures on the stream. The status of the answer does not
count. -/
def watch [HttpServer σ] (c : Cluster σ) (target : Target) (request : OpenRequest) :
    Except ClusterFailure (List (Except Cause Change)) × Cluster σ :=
  let (kind, c) := c.resolve target.gvk
  match kind with
  | .error e => (.error e, c)
  | .ok k =>
    let (answer, c) := c.send (watchAddress? k target.ns request)
    (match answer with
      | .error cause =>
        .error (.exchange
          ("watching " ++ target.display ++ " from rv " ++ startVersion request) cause)
      | .ok r => .ok (WatchLine.readAll r.body), c)

/-! ## Reading -/

/-- The object in an answer, nothing if the server says that there is none. -/
def objectOf (r : Response) : Except Cause (Option Record) :=
  if 400 ≤ r.status ∧ r.status < 600 then
    let refusal := Refusal.ofResponse r
    if refusal.reason = "NotFound" then .ok none else .error (.refused refusal)
  else
    match Json.whole (Manifest.reader Json.depthLimit) r.body with
    | .ok m => .ok (some m.record)
    | .error _ => .error .unreadable

def get [HttpServer σ] (c : Cluster σ) (key : ResourceId) :
    Except ClusterFailure (Option Record) × Cluster σ :=
  let (kind, c) := c.resolve key.kind
  match kind with
  | .error e => (.error e, c)
  | .ok k =>
    if k.namespaced ∧ key.ns = "" then
      (.error (.invalid ("namespace required for namespaced kind " ++ key.kind)), c)
    else
      let ns := if key.ns = "" then none else some key.ns
      let (answer, c) := c.send (Address.of? (path k ns ++ "/" ++ key.name) [])
      (match answer.bind objectOf with
        | .error cause => .error (.exchange ("getting " ++ key.display) cause)
        | .ok r => .ok r, c)

/-! ## As a source of watches -/

/-- What a stream of a watch yields for one of its items. -/
def itemOf : Except Cause Change → StreamItem
  | .ok e => .event e
  | .error _ => .broken ""

def openStream [HttpServer σ] (c : Cluster σ) (target : Target) (request : OpenRequest) :
    Except String Nat × Cluster σ :=
  match c.watch target request with
  | (.error e, c) => (.error e.message, c)
  | (.ok items, c) =>
    (.ok c.streams.length, { c with streams := c.streams ++ [items.map itemOf] })

def next (c : Cluster σ) (n : Nat) : StreamItem × Cluster σ :=
  match (c.streams[n]?).getD [] with
  | [] => (.ended, c)
  | item :: rest => (item, { c with streams := c.streams.set n rest })

instance [HttpServer σ] : WatchServer (Cluster σ) where
  openStream? c target request := some (c.openStream target request)
  next? c n := some (c.next n)
  release c n := { c with streams := c.streams.set n [] }
  fetch c key :=
    match c.get key with
    | (.ok r, c) => (.ok r, c)
    | (.error e, c) => (.error e.message, c)

end Cluster

end SharedWatch
