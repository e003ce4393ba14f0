import SharedWatch.Hub.Basic
import SharedWatch.Resource.Failure
import SharedWatch.Text.Blank

/-!
What callers can ask of a hub.

A shared watch is filtered for each subscriber; a direct watch has a connection of its own, and the
server selects by the labels of the filter. A single read is answered by the server, and from the
cache when the server fails.
-/

namespace SharedWatch.Hub

variable {σ : Type}

/-- Whether a target names no kind. -/
def namesNothing (target : Target) : Bool := (Text.trim target.gvk).isEmpty

/-- Subscribes to the shared watch of a target: the subscriber's number and what it is sent first.
Cancelling the parent token unsubscribes. -/
def subscribe (h : Hub σ) (target : Target) (filter : Filter) (parent : Option Token) :
    Except WatchFailure (Nat × List Change × Hub σ) :=
  if namesNothing target then .error .emptyGvk else .ok (h.attach target filter parent)

/-- Starts a direct watch; it answers with the number of its connection. -/
def watchDirect (h : Hub σ) (target : Target) (filter : Filter) (token : Token) :
    Except WatchFailure (Nat × Hub σ) :=
  if namesNothing target then .error .emptyGvk
  else
    filter.labelSelector.map fun selector =>
      (h.links.length, h.startLink target (.client token) selector)

/-- Starts a cache adapter, which runs until its token is cancelled. -/
def mirror (h : Hub σ) (target : Target) (token : Token) : Except ServiceFailure (Hub σ) :=
  if namesNothing target then .error .emptyGvk
  else .ok { h with adapters := h.adapters ++ [⟨target, token, .subscribing⟩] }

def get [WatchServer σ] (h : Hub σ) (key : ResourceId) : Except ServiceFailure Read × Hub σ :=
  let (answer, source) := WatchServer.fetch h.source key
  let h := { h with source }
  match answer with
  | .ok (some record) => (.ok ⟨record, .remote⟩, h)
  | .ok none => (.error (.notFound key.display), h)
  | .error reason =>
    let (cached, cache) := h.cache.getRecord h.clock key
    (cached.elim (.error (.unavailable reason)) fun record => .ok ⟨record, .cache⟩,
      { h with cache })

/-- The record that the cache holds under a key. -/
def cached (h : Hub σ) (key : ResourceId) : Option Record × Hub σ :=
  let (record, cache) := h.cache.getRecord h.clock key
  (record, { h with cache })

def stats (h : Hub σ) (target : Target) : Option HandlerCounts :=
  (h.registry.serving? target).map (·.stats)

def targets (h : Hub σ) : List Target := h.registry.targets

end SharedWatch.Hub
