import SharedWatch.Hub.Basic

/-!
How a hub moves: one step of one of its parts at a time, and the passing of time when no part can
move.

`Hub.step?` takes the first step that is possible; `Hub.settle` lets a span of time pass. Nothing
waits while it could move, so timers only matter between the steps of `Hub.step?`. `Hub.follow`
reads what comes as soon as it is there.
-/

namespace SharedWatch.Hub

variable {σ : Type}

/-! ## Connections -/

/-- Lets go of the stream of a connection that no longer holds on to it. -/
def releaseStream [WatchServer σ] (h : Hub σ) (i : Nat) : Hub σ :=
  match h.links[i]? with
  | none => h
  | some l =>
    if l.connection.holdsStream then h
    else
      match l.stream with
      | none => h
      | some s =>
        { h with source := WatchServer.release h.source s }.changeLink i fun l =>
          { l with stream := none }

/-- When a connection with this task makes its next request. -/
def wakeFor (now : Nat) : Connection.Task → Option Nat
  | .opening pause _ => some (now + pause.total)
  | _ => none

/-- Tells a connection how its task went. The pause of the next attempt starts at once. -/
def tell [WatchServer σ] (h : Hub σ) (i : Nat) (o : Connection.Outcome) : Hub σ :=
  ({ h with line := h.line.filter (· != i) }.changeLink i fun l =>
    let connection := l.connection.receive o 0
    { l with connection, wake := wakeFor h.now connection.task }).releaseStream i

/-- One step of a connection, if it can move. An item that waits is handed over as soon as there is
room, even when the connection is no longer wanted; nothing else goes before that. -/
def stepLink? [WatchServer σ] (h : Hub σ) (i : Nat) (l : Link) : Option (Hub σ) :=
  match l.connection.task with
  | .done => none
  | .sending item =>
    if l.outbox.abandoned then some (h.tell i .abandoned)
    else if l.outbox.hasRoom then
      some ((h.changeLink i fun l => { l with outbox := l.outbox.push item }).tell i .sent)
    else if h.unwanted l.owner then some (h.tell i .cancelled)
    else none
  | .opening _ request =>
    if h.unwanted l.owner then some (h.tell i .cancelled)
    else
      match l.wake with
      | none => none
      | some wake =>
        if wake ≤ h.now then
          some ({ h with line := h.line ++ [i], requests := h.requests ++ [request] }.changeLink i
            fun l => { l with wake := none })
        else none
  | .following =>
    if h.unwanted l.owner then some (h.tell i .cancelled)
    else
      match l.stream with
      | none => some (h.tell i (.item .ended))
      | some s =>
        (WatchServer.next? h.source s).map fun x => { h with source := x.2 }.tell i (.item x.1)

/-- The answer to the connection of a number that waits in the line, if the server has one. -/
def answer? [WatchServer σ] (h : Hub σ) (i : Nat) : Option (Hub σ) :=
  match h.links[i]? with
  | none => none
  | some l =>
    match l.connection.task with
    | .opening _ request =>
      (WatchServer.openStream? h.source l.target request).map fun x =>
        let h := { h with source := x.2 }
        match x.1 with
        | .ok s => (h.changeLink i fun l => { l with stream := some s }).tell i .opened
        | .error reason => h.tell i (.refused reason)
    | _ => none

/-! ## Relays -/

/-- Makes the next delivery of a relay, or gives it up when its time is over. -/
def deliver? (h : Hub σ) (k : Nat) (s : Share) (d : Delivery) : Option (Hub σ) :=
  let note (h : Hub σ) (receipt : Receipt) : Hub σ :=
    h.changeShare k fun s => { s with relay := s.relay.note receipt, due := none }
  match h.mailbox? d.subscriber with
  | none => some (note h .gone)
  | some m =>
    if m.queue.abandoned then some (note h .gone)
    else if m.queue.hasRoom then
      some (note (h.changeQueue d.subscriber (·.push d.event)) .accepted)
    else
      match s.due with
      | none =>
        some (h.changeShare k fun s =>
          { s with due := some (h.now + h.settings.deliveryTimeout.total) })
      | some due => if due ≤ h.now then some (note h .late) else none

/-- Sets what a relay is busy with. When it is done nobody reads its connection any more. -/
def setRelay (h : Hub σ) (k : Nat) (link : Nat) (relay : Relay) : Hub σ :=
  let h := h.changeShare k fun s => { s with relay }
  if relay = .done then h.dropLink link else h

/-- One step of a relay, if it can move. -/
def stepShare? (h : Hub σ) (k : Nat) (s : Share) : Option (Hub σ) :=
  match s.relay with
  | .done => none
  | .delivering (d :: _) _ _ => h.deliver? k s d
  | .delivering [] failed terminal =>
    let relay := if terminal then Relay.done else .listening
    some ((h.changeHandler k fun x => (Relay.conclude x failed terminal).1).setRelay k s.link relay)
  | .listening =>
    if h.registry.stopped k then some (h.setRelay k s.link .done)
    else
      match s.watched.find? fun x => h.tokens.isCancelled x.2 with
      | some (number, _) =>
        some ((h.changeHandler k (·.remove [number])).changeShare k fun s =>
          { s with watched := s.watched.filter fun x => x.1 != number })
      | none =>
        match h.readLink? s.link with
        | some (item, h) =>
          (h.registry.handler? k).map fun x =>
            let (x, relay) := Relay.take x item
            (h.changeHandler k fun _ => x).setRelay k s.link relay
        | none =>
          if h.isLinkClosed s.link then
            some ((h.changeHandler k (·.shutdown)).setRelay k s.link .done)
          else none

/-! ## Adapters -/

/-- One step of a cache adapter, if it can move. It looks at its token only once it has
subscribed. -/
def stepAdapter? (h : Hub σ) (i : Nat) (a : Adapter) : Option (Hub σ) :=
  match a.task with
  | .done => none
  | .subscribing =>
    let (number, _, h) := h.attach a.target .everything (some a.token)
    some (h.setAdapter i (.following number))
  | .following number =>
    if h.tokens.isCancelled a.token then some ((h.dropSubscription number).setAdapter i .done)
    else
      match h.read? number with
      | some (e, h) => some { h with cache := (h.cache.apply h.clock a.target.gvk e).2 }
      | none =>
        if h.isClosed number then
          some ((h.dropSubscription number).setAdapter i
            (.pausing (h.now + h.adapterSettings.retryPause.total)))
        else none
  | .pausing wake =>
    if h.tokens.isCancelled a.token then some (h.setAdapter i .done)
    else if wake ≤ h.now then some (h.setAdapter i .subscribing)
    else none

/-! ## All together -/

/-- The first of some parts that can move, moved; parts are numbered from `i`. -/
def firstStep {α : Type} (f : Nat → α → Option (Hub σ)) : Nat → List α → Option (Hub σ)
  | _, [] => none
  | i, x :: rest =>
    match f i x with
    | some h => some h
    | none => firstStep f (i + 1) rest

/-- One step of one part, if any can move: an answer of the server, then connections, relays and
adapters in the order in which they were started. -/
def step? [WatchServer σ] (h : Hub σ) : Option (Hub σ) :=
  firstStep (fun _ i => h.answer? i) 0 h.line
    <|> firstStep h.stepLink? 0 h.links
    <|> firstStep h.stepShare? 0 h.shares
    <|> firstStep h.stepAdapter? 0 h.adapters

/-- The times that something waits for. -/
def timers (h : Hub σ) : List Nat :=
  h.links.filterMap (·.wake) ++ h.shares.filterMap (·.due) ++
    h.adapters.filterMap fun a =>
      match a.task with
      | .pausing wake => some wake
      | _ => none

/-- The hub after its next step, or at the next time that something waits for when nothing can
move. -/
def advance? [WatchServer σ] (h : Hub σ) : Option (Hub σ) :=
  h.step? <|> h.timers.min?.map fun t => { h with now := t }

/-- Moves until nothing can move before the deadline, at most so many steps. -/
def run [WatchServer σ] : Nat → Nat → Hub σ → Hub σ
  | 0, _, h => h
  | fuel + 1, deadline, h =>
    match h.advance? with
    | none => { h with now := deadline }
    | some next =>
      if next.now ≤ deadline then run fuel deadline next else { h with now := deadline }

/-- How many steps a hub may take before it counts as never coming to rest. -/
def patience : Nat := 1000000000000

/-- Lets so many nanoseconds pass. -/
def settle [WatchServer σ] (h : Hub σ) (span : Nat) : Hub σ := h.run patience (h.now + span)

/-- What a reader is sent, each item read as soon as it is there: up to the last one that it wants,
the end of its stream, or the point from which nothing happens any more. At most so many steps. -/
def follow [WatchServer σ] {α : Type} (read? : Hub σ → Option (α × Hub σ)) (isClosed : Hub σ → Bool)
    (isLast : α → Bool) : Nat → Hub σ → List α
  | 0, _ => []
  | fuel + 1, h =>
    match read? h with
    | some (x, h) => if isLast x then [x] else x :: follow read? isClosed isLast fuel h
    | none =>
      if isClosed h then []
      else
        match h.advance? with
        | none => []
        | some h => follow read? isClosed isLast fuel h

end SharedWatch.Hub
