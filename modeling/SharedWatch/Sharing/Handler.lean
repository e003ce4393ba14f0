import SharedWatch.Resource.Target
import SharedWatch.Sharing.Generation

/-!
The handler of one target: the generations of its shared watch and whether it still serves.

Each operation is one section under the handler's lock. A handler stops when its last subscriber
leaves or its connection ends, and a stopped handler never gains a subscriber again.
-/

namespace SharedWatch

/-- Point-in-time counts of a handler. -/
structure HandlerCounts where
  generations : Nat
  subscribers : Nat
  /-- Resources that the newest generation knows. -/
  resources : Nat
  deriving DecidableEq, Repr

/-- The shared state of one target. -/
structure Handler where
  target : Target
  chain : Chain
  stopped : Bool
  /-- Sessions that the connection has begun. -/
  sessions : Nat

namespace Handler

def new (target : Target) : Handler := ⟨target, .first 1, false, 0⟩

/-- A session of the connection has begun. The first one uses the generation that is there. -/
def beginSession (h : Handler) (resumed : Bool) : Handler :=
  { h with
    sessions := h.sessions + 1
    chain := if h.sessions = 0 then h.chain else h.chain.advance (h.chain.head.id + 1) resumed }

/-- Routes an event, unless the handler has stopped. -/
def plan (h : Handler) (e : Change) : Handler × List Delivery :=
  if h.stopped then (h, [])
  else
    let (chain, plan, _) := h.chain.dispatch e
    ({ h with chain }, plan)

/-- What a new subscriber is sent first: the live state that its filter accepts, as additions. -/
def primed (h : Handler) (filter : Filter) : List Change :=
  (h.chain.snapshot.filter filter.accepts).map (.ofRecord .added)

def attach (h : Handler) (s : Subscriber) : Handler :=
  { h with chain := h.chain.attachOldest s }

/-- Takes subscribers out; the handler stops when it loses its last one by that. -/
def remove (h : Handler) (ids : List Nat) : Handler :=
  let chain := ids.foldl Chain.detach h.chain
  let left := chain.subscriberCount
  { h with chain, stopped := h.stopped || (left < h.chain.subscriberCount && left == 0) }

/-- Takes every subscriber out and stops. -/
def shutdown (h : Handler) : Handler := { h with chain := h.chain.dismiss, stopped := true }

def stats (h : Handler) : HandlerCounts :=
  ⟨h.chain.depth, h.chain.subscriberCount, h.chain.resources⟩

end Handler

end SharedWatch
