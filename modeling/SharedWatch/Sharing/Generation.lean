import SharedWatch.Resource.Filter
import SharedWatch.Sharing.Ledger

/-!
The generations of one shared watch.

Every session of the connection has a generation of its own: the subscribers that joined it and a
ledger of what they were sent. A new session does not displace the generations before it; events
go to all of them, the oldest first, and each lets through what is new to its own ledger, so
nobody is sent a version twice. A bookmark on the newest session proves that it has caught up:
then the older generations are folded into it.

Main definitions: `Chain.dispatch` routes one event and says who is to be sent what;
`Chain.checkpoint` is the fold; `Chain.snapshot` is the live state that a new subscriber starts
from.
-/

namespace SharedWatch

/-- Somebody who follows a shared watch. -/
structure Subscriber where
  id : Nat
  filter : Filter
  deriving DecidableEq, Repr

/-- One event that a subscriber is to be sent. -/
structure Delivery where
  subscriber : Nat
  event : Change
  deriving DecidableEq

/-- What a bookmark did to the chain. -/
structure Drain where
  /-- Generations folded. -/
  retired : Nat
  /-- Subscribers taken over from them. -/
  absorbed : Nat
  /-- Deletions made up for resources that vanished unseen. -/
  deletes : Nat
  /-- Deleted resources forgotten. -/
  pruned : Nat
  deriving DecidableEq, Repr

/-- How an event reaches a generation. -/
inductive Offer where
  | fresh (kind : ChangeKind)
  /-- An addition from a newer session that this generation may have seen already. -/
  | replay
  deriving DecidableEq, Repr

/-- One session's subscribers and ledger. -/
structure Generation where
  id : Nat
  /-- Whether the session went on from an earlier one instead of replaying all state. -/
  resumed : Bool
  subscribers : List Subscriber
  ledger : Ledger

namespace Generation

/-- A generation that nobody has joined and that knows nothing. -/
def new (id : Nat) (resumed : Bool) : Generation := ⟨id, resumed, [], .empty⟩

/-- The subscribers with one more, in place of one with that id. -/
def join (s : Subscriber) (subscribers : List Subscriber) : List Subscriber :=
  subscribers.filter (fun t => t.id != s.id) ++ [s]

def attach (g : Generation) (s : Subscriber) : Generation :=
  { g with subscribers := join s g.subscribers }

def has (g : Generation) (id : Nat) : Bool := g.subscribers.any (fun s => s.id == id)

def detach (g : Generation) (id : Nat) : Generation :=
  { g with subscribers := g.subscribers.filter (fun s => s.id != id) }

/-- The kind under which an offered event enters this generation. -/
def kindOf (g : Generation) (how : Offer) (e : Change) : ChangeKind :=
  match how with
  | .fresh kind => kind
  | .replay => g.ledger.replayKind e.object.resource

/-- Sends an event to the subscribers that want its object. -/
def sendTo (subscribers : List Subscriber) (e : Change) : List Delivery :=
  (subscribers.filter fun s => s.filter.accepts e.object).map fun s => ⟨s.id, e⟩

/-- Offers an event: if the ledger lets it through it is recorded and sent. -/
def offer (g : Generation) (how : Offer) (e : Change) : Generation × List Delivery :=
  let kind := g.kindOf how e
  if g.ledger.accepts e.object.resource e.version then
    ({ g with ledger := g.ledger.accept kind e.object e.version },
      sendTo g.subscribers (e.retyped kind))
  else (g, [])

end Generation

/-- The newest generation and those before it, newest first. -/
structure Chain where
  head : Generation
  ancestors : List Generation

namespace Chain

def first (id : Nat) : Chain := ⟨.new id false, []⟩

def generations (c : Chain) : List Generation := c.head :: c.ancestors

/-- Starts a new session in front of the current one. -/
def advance (c : Chain) (id : Nat) (resumed : Bool) : Chain := ⟨.new id resumed, c.generations⟩

def depth (c : Chain) : Nat := c.generations.length

def subscriberCount (c : Chain) : Nat := (c.generations.flatMap (·.subscribers)).length

/-- How many resources the newest generation knows. -/
def resources (c : Chain) : Nat := c.head.ledger.size

/-- The oldest generation, which every event reaches; new subscribers belong to it. -/
def oldest (c : Chain) : Generation := c.ancestors.getLastD c.head

/-- Changes the last of some generations. -/
def changeLast (f : Generation → Generation) : List Generation → List Generation
  | [] => []
  | [g] => [f g]
  | g :: rest => g :: changeLast f rest

/-- Takes a subscriber into the oldest generation. -/
def attachOldest (c : Chain) (s : Subscriber) : Chain :=
  match c.ancestors with
  | [] => { c with head := c.head.attach s }
  | gs => { c with ancestors := changeLast (·.attach s) gs }

/-- Takes a subscriber into the newest generation. -/
def attachHead (c : Chain) (s : Subscriber) : Chain := { c with head := c.head.attach s }

def has (c : Chain) (id : Nat) : Bool := c.generations.any (·.has id)

/-- Takes the subscriber out of the newest of some generations that has it. -/
def detachFrom (id : Nat) : List Generation → List Generation
  | [] => []
  | g :: rest => if g.has id then g.detach id :: rest else g :: detachFrom id rest

/-- Takes the subscriber out of the newest generation that has it. -/
def detach (c : Chain) (id : Nat) : Chain :=
  if c.head.has id then { c with head := c.head.detach id }
  else { c with ancestors := detachFrom id c.ancestors }

/-- Takes every subscriber out. -/
def dismiss (c : Chain) : Chain :=
  ⟨{ c.head with subscribers := [] }, c.ancestors.map fun g => { g with subscribers := [] }⟩

/-- The live state, as the oldest generation knows it. -/
def snapshot (c : Chain) : List Record := c.oldest.ledger.live

/-! ## Changes of resources -/

/-- How an event reaches the generations behind the newest: an addition of an object that was edited
since its creation has likely been seen by an older session, so it is a replay there. -/
def downstream (e : Change) : Offer :=
  if e.kind = .added ∧ 1 < e.object.generation then .replay else .fresh e.kind

/-- Offers an event to every generation; the deliveries of the oldest come first. -/
def relay (c : Chain) (e : Change) : Chain × List Delivery :=
  let head := c.head.offer (.fresh e.kind) e
  let ancestors := c.ancestors.map (·.offer (downstream e) e)
  (⟨head.1, ancestors.map (·.1)⟩, (ancestors.map (·.2)).reverse.flatten ++ head.2)

/-- Sends an event to every subscriber, whatever its filter. -/
def broadcast (c : Chain) (e : Change) : List Delivery :=
  c.generations.flatMap fun g => g.subscribers.map fun s => ⟨s.id, e⟩

/-! ## Bookmarks -/

/-- The last known object of each resource that is taken to exist. -/
abbrev Known := List (ResourceName × Record)

/-- Known resources without one. -/
def forget (known : Known) (name : ResourceName) : Known := known.filter fun x => x.1 != name

/-- Known resources after one entry of a ledger: a live one counts, a deleted one does not. -/
def learn (known : Known) (x : ResourceName × Entry) : Known :=
  if x.2.isLive then forget known x.1 ++ [(x.1, x.2.object)] else forget known x.1

/-- The deletions of known resources that the ledger of the newest session has not recorded, for the
subscribers that wanted them, at the bookmark's version. -/
def vanished (ledger : Ledger) (known : Known) (subscribers : List Subscriber) (version : String) :
    List Delivery :=
  (known.filter fun x => !ledger.contains x.1).flatMap fun x =>
    Generation.sendTo subscribers (.atVersion .deleted x.2 version)

/-- The deletions for each of some generations, oldest first, and what is known after them. A
generation's subscribers are told of what was known up to that generation. -/
def vanishedThrough (ledger : Ledger) (version : String) : Known → List Generation →
    Known × List Delivery
  | known, [] => (known, [])
  | known, g :: rest =>
    let known := g.ledger.entries.foldl learn known
    let later := vanishedThrough ledger version known rest
    (later.1, vanished ledger known g.subscribers version ++ later.2)

/-- Folds the older generations into the newest and passes the bookmark on. After a resumed session
what the older ones knew still holds; after a full replay whatever was not replayed is gone. -/
def checkpoint (c : Chain) (e : Change) : Chain × List Delivery × Drain :=
  let oldestFirst := c.ancestors.reverse
  let ledger :=
    if c.head.resumed then c.ancestors.foldl (fun l g => l.carry g.ledger) c.head.ledger
    else c.head.ledger
  let deletes :=
    if c.head.resumed ∨ c.ancestors = [] then []
    else
      let (known, plan) := vanishedThrough c.head.ledger e.version [] oldestFirst
      plan ++ vanished c.head.ledger known c.head.subscribers e.version
  let subscribers :=
    oldestFirst.foldl (fun all g => g.subscribers.foldl (fun all s => Generation.join s all) all)
      c.head.subscribers
  let bookmarks := (subscribers.filter (·.filter.bookmarks)).map fun s => (⟨s.id, e⟩ : Delivery)
  (⟨{ c.head with subscribers, ledger := ledger.prune }, []⟩, deletes ++ bookmarks,
    { retired := c.ancestors.length
      absorbed := (c.ancestors.flatMap (·.subscribers)).length
      deletes := deletes.length
      pruned := ledger.size - ledger.prune.size })

/-- Routes one event: the chain after it, who is to be sent what, and what a bookmark folded. -/
def dispatch (c : Chain) (e : Change) : Chain × List Delivery × Option Drain :=
  match e.kind with
  | .bookmark =>
    let (c, plan, drain) := c.checkpoint e
    (c, plan, some drain)
  | .error => (c, c.broadcast e, none)
  | _ =>
    let (c, plan) := c.relay e
    (c, plan, none)

end Chain

end SharedWatch
