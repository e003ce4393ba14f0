import SharedWatch.Connection.Basic
import SharedWatch.Hub.Queue
import SharedWatch.Hub.Token
import SharedWatch.Sharing.Registry
import SharedWatch.Sharing.Relay
import SharedWatch.Store.Adapter

/-!
Everything that runs over one server: connections, the relays of shared watches, subscribers'
queues, and the adapters that keep the cache.

A `Hub` is one state of all of it, time included. This module holds the state and the changes that
more than one part of it makes.
-/

namespace SharedWatch

/-- Who a connection works for. -/
inductive Owner where
  /-- The handler of a shared watch, by its number. -/
  | handler (k : Nat)
  /-- The holder of a token. -/
  | client (token : Token)
  deriving DecidableEq, Repr

/-- A connection with its stream and the queue to its reader. -/
structure Link where
  target : Target
  owner : Owner
  connection : Connection
  /-- When the pause before the next attempt is over, until the request is made. -/
  wake : Option Nat
  stream : Option Nat
  outbox : Queue Notice

/-- The relay of a handler. -/
structure Share where
  relay : Relay
  /-- The number of the connection that feeds it. -/
  link : Nat
  /-- Subscribers with the tokens that take them out. -/
  watched : List (Nat × Token)
  /-- When the delivery that waits for room is given up. -/
  due : Option Nat

/-- A subscriber's end of a shared watch. -/
structure Mailbox where
  number : Nat
  /-- The number of the handler. -/
  handler : Nat
  token : Token
  queue : Queue Change

/-- What a cache adapter is busy with. -/
inductive AdapterTask where
  | subscribing
  /-- Applying what a subscriber of that number is sent. -/
  | following (subscriber : Nat)
  /-- Waiting after its stream was closed. -/
  | pausing (wake : Nat)
  | done
  deriving DecidableEq, Repr

/-- Keeps the cache in step with a shared watch until its token is cancelled. -/
structure Adapter where
  target : Target
  token : Token
  task : AdapterTask

/-- All that runs over a server. -/
structure Hub (σ : Type) where
  source : σ
  settings : WatchSettings
  adapterSettings : AdapterSettings
  cache : Cache
  /-- The time by which pauses end, in nanoseconds. -/
  now : Nat
  /-- The time by which the cache ages, in nanoseconds; pauses that are skipped do not age it. -/
  clock : Nat
  tokens : Tokens
  registry : Registry
  /-- One for each handler, in the order of their numbers. -/
  shares : List Share
  links : List Link
  /-- The numbers of the connections that wait for an answer, the first to ask first. -/
  line : List Nat
  /-- Every request that was made, in order. -/
  requests : List OpenRequest
  /-- How many subscribers were ever taken in. -/
  subscribers : Nat
  mailboxes : List Mailbox
  adapters : List Adapter

namespace Hub

variable {σ : Type}

def new (source : σ) (settings : WatchSettings) (cacheSettings : CacheSettings)
    (adapterSettings : AdapterSettings) : Hub σ :=
  { source, settings, adapterSettings, cache := .new cacheSettings, now := 0, clock := 0
    tokens := .none, registry := .empty, shares := [], links := [], line := [], requests := []
    subscribers := 0, mailboxes := [], adapters := [] }

def ofEnvironment (source : σ) (env : Environment) : Hub σ :=
  new source (.ofEnvironment env) (.ofEnvironment env) (.ofEnvironment env)

/-! ## Tokens -/

/-- Issues a token, below another if one is given. -/
def issueToken (h : Hub σ) (parent : Option Token) : Token × Hub σ :=
  let (token, tokens) := h.tokens.issue parent
  (token, { h with tokens })

def cancel (h : Hub σ) (token : Token) : Hub σ := { h with tokens := h.tokens.cancel token }

/-- Whether the owner of a connection no longer wants it: a handler that has stopped, a token that
was cancelled. -/
def unwanted (h : Hub σ) : Owner → Bool
  | .handler k => h.registry.stopped k
  | .client token => h.tokens.isCancelled token

/-! ## Parts by number -/

def changeLink (h : Hub σ) (i : Nat) (f : Link → Link) : Hub σ :=
  { h with links := h.links.modify i f }

def changeShare (h : Hub σ) (k : Nat) (f : Share → Share) : Hub σ :=
  { h with shares := h.shares.modify k f }

def mailbox? (h : Hub σ) (number : Nat) : Option Mailbox :=
  h.mailboxes.find? fun m => m.number == number

def changeQueue (h : Hub σ) (number : Nat) (f : Queue Change → Queue Change) : Hub σ :=
  { h with mailboxes := h.mailboxes.map fun m =>
      if m.number = number then { m with queue := f m.queue } else m }

def setAdapter (h : Hub σ) (i : Nat) (task : AdapterTask) : Hub σ :=
  { h with adapters := h.adapters.modify i fun a => { a with task } }

/-- Changes the handler of a number; one that has stopped serves no longer. -/
def changeHandler (h : Hub σ) (k : Nat) (f : Handler → Handler) : Hub σ :=
  let registry := h.registry.change k f
  { h with registry := if registry.stopped k then registry.forget k else registry }

/-! ## Subscribers -/

def startLink (h : Hub σ) (target : Target) (owner : Owner) (selector : Option String) : Hub σ :=
  { h with links := h.links ++
      [{ target, owner, connection := .start h.settings selector, wake := some h.now, stream := none
         outbox := .primed h.settings.capacity [] }] }

/-- Starts the connection and the relay of a handler that was just started. -/
def startShare (h : Hub σ) (target : Target) : Hub σ :=
  let share : Share := ⟨.listening, h.links.length, [], none⟩
  let k := h.shares.length
  { h with shares := h.shares ++ [share] }.startLink target (.handler k) none

/-- Takes a subscriber in: its number and the events in its queue. -/
def attach (h : Hub σ) (target : Target) (filter : Filter) (parent : Option Token) :
    Nat × List Change × Hub σ :=
  let number := h.subscribers + 1
  let (token, h) := h.issueToken parent
  let (registry, k, primed) := h.registry.subscribe target ⟨number, filter⟩
  let h := { h with registry, subscribers := number }
  let h := if h.shares.length < registry.handlers.length then h.startShare target else h
  let h := h.changeShare k fun s => { s with watched := s.watched ++ [(number, token)] }
  (number, primed, { h with mailboxes := h.mailboxes ++
    [⟨number, k, token, .primed h.settings.capacity primed⟩] })

/-- Takes a subscriber out; any number of times. -/
def unsubscribe (h : Hub σ) (number : Nat) : Hub σ :=
  match h.mailbox? number with
  | none => h
  | some m => (h.cancel m.token).changeHandler m.handler (·.remove [number])

/-- Takes a subscriber out whose reader has gone. -/
def dropSubscription (h : Hub σ) (number : Nat) : Hub σ :=
  (h.unsubscribe number).changeQueue number (·.abandon)

/-- Whether more events may come into a queue: while its subscriber is attached, and while a
delivery for it is on its way. -/
def isFed (h : Hub σ) (m : Mailbox) : Bool :=
  (h.registry.handler? m.handler).any (·.chain.has m.number) ||
    (h.shares[m.handler]?).any (·.relay.holds m.number)

/-- Whether a subscriber's stream has ended: its queue is empty and nothing more can come. -/
def isClosed (h : Hub σ) (number : Nat) : Bool :=
  (h.mailbox? number).all fun m => m.queue.items.isEmpty && !h.isFed m

/-- Takes the next event out of a subscriber's queue. -/
def read? (h : Hub σ) (number : Nat) : Option (Change × Hub σ) :=
  ((h.mailbox? number).bind (·.queue.pop?)).map fun x =>
    (x.1, h.changeQueue number fun _ => x.2)

/-- Takes the next item out of a connection's queue. -/
def readLink? (h : Hub σ) (i : Nat) : Option (Notice × Hub σ) :=
  ((h.links[i]?).bind (·.outbox.pop?)).map fun x =>
    (x.1, h.changeLink i fun l => { l with outbox := x.2 })

/-- Whether a connection's stream of items has ended. -/
def isLinkClosed (h : Hub σ) (i : Nat) : Bool :=
  (h.links[i]?).all fun l => l.outbox.items.isEmpty && l.connection.isDone

/-- The reader of a connection goes. -/
def dropLink (h : Hub σ) (i : Nat) : Hub σ :=
  h.changeLink i fun l => { l with outbox := l.outbox.abandon }

end Hub

end SharedWatch
