import SharedWatch.Connection.Request
import SharedWatch.Sharing.Handler

/-!
The relay of one handler: it takes what the connection says, has the handler plan who is to be
told, and hands the deliveries to the subscribers one by one.

The plan is made at once, the deliveries are made later, and subscribers may come and go in
between. A subscriber that a delivery fails for gets nothing more and is taken out when the plan
is done; after an error of the whole connection the handler closes every queue.
-/

namespace SharedWatch

/-- What a relay is busy with. -/
inductive Relay where
  /-- Waiting for the connection or for a subscriber to be cancelled. -/
  | listening
  /-- Making deliveries; `failed` have missed one, and after a `terminal` event the handler ends. -/
  | delivering (plan : List Delivery) (failed : List Nat) (terminal : Bool)
  | done
  deriving DecidableEq

/-- How a delivery went. -/
inductive Receipt where
  | accepted
  /-- The queue had no room in time. -/
  | late
  /-- The reader has gone. -/
  | gone
  deriving DecidableEq, Repr

namespace Relay

/-- Takes up what the connection says. -/
def take (h : Handler) : Notice → Handler × Relay
  | .opened resumed => (h.beginSession resumed, .listening)
  | .event e =>
    let (h, plan) := h.plan e
    (h, .delivering plan [] (e.kind = .error))

/-- A plan from the first delivery on that is not for one of those who have missed one. -/
def passOver (failed : List Nat) (plan : List Delivery) : List Delivery :=
  plan.dropWhile fun d => failed.contains d.subscriber

/-- The relay after the next delivery went in the given way. -/
def note (r : Relay) (receipt : Receipt) : Relay :=
  match r, receipt with
  | .delivering (_ :: rest) failed terminal, .accepted =>
    .delivering (passOver failed rest) failed terminal
  | .delivering (d :: rest) failed terminal, _ =>
    let failed := failed ++ [d.subscriber]
    .delivering (passOver failed rest) failed terminal
  | r, _ => r

/-- Ends a plan without deliveries left: those that failed are taken out, and a terminal event shuts
the handler down. -/
def conclude (h : Handler) (failed : List Nat) (terminal : Bool) : Handler × Relay :=
  let h := h.remove failed
  if terminal then (h.shutdown, .done) else (h, .listening)

/-- Whether the relay holds a delivery for a subscriber. -/
def holds (r : Relay) (subscriber : Nat) : Bool :=
  match r with
  | .delivering plan _ _ => plan.any fun d => d.subscriber == subscriber
  | _ => false

end Relay

end SharedWatch
