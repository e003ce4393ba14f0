import SharedWatch.Resource.Change

/-!
The state machine of one connection: what to do next when something happens.

A connection opens a watch, follows it, and opens it again from the last version seen when the
server closes it. An error on the stream makes it start over from nothing after a fixed pause; too
many failed attempts in a row end it, and so does a cancellation.
-/

namespace SharedWatch.Connection

/-- What to wait for before the next attempt to open. -/
inductive Delay where
  | immediate
  /-- The fixed pause after an error. -/
  | fixed
  /-- The next delay of the backoff. -/
  | backoff
  deriving DecidableEq, Repr

/-- Where a connection stands. A resume point is the last version that was relayed. -/
inductive State where
  /-- About to open a watch. -/
  | connect (resume : Option String) (attempt : Nat) (delay : Delay)
  /-- Following an open watch. -/
  | running (resume : Option String)
  /-- The server closed the watch. -/
  | closed (resume : Option String)
  | failed
  | cancelled
  deriving DecidableEq, Repr

/-- What happened to a connection. -/
inductive Signal where
  | opened
  | openFailed (reason : String)
  | event (e : Change)
  /-- The stream ended without an error event. -/
  | closed
  | resume
  | cancel

/-- What a connection does in answer. -/
inductive Action where
  | wait
  /-- A watch is open; whether it goes on from an earlier one. -/
  | announce (resumed : Bool)
  | relay (e : Change)
  /-- Tell everybody that the connection has failed. -/
  | terminate (reason : String)
  | stop
  deriving DecidableEq

namespace State

def initial : State := .connect none 0 .immediate

def isTerminal : State → Bool
  | .failed => true
  | .cancelled => true
  | _ => false

/-- The resume point after an event: its version, unless it has none. -/
def advance (resume : Option String) (version : String) : Option String :=
  if version = "" then resume else some version

/-- The count of failed attempts after one more; it stays in an unsigned 32-bit word. -/
def countAttempt (attempt : Nat) : Nat := min (attempt + 1) 4294967295

/-- The next state and what to do. A signal that does not fit the state is waited out. -/
def step (s : State) (signal : Signal) (maxAttempts : Nat) : State × Action :=
  if s.isTerminal then (s, .stop)
  else
    match s, signal with
    | _, .cancel => (.cancelled, .stop)
    | .connect resume _ _, .opened => (.running resume, .announce resume.isSome)
    | .connect resume attempt _, .openFailed reason =>
      if maxAttempts ≤ countAttempt attempt then (.failed, .terminate reason)
      else (.connect resume (countAttempt attempt) .backoff, .wait)
    | .running resume, .event e =>
      if e.kind = .error then (.connect none 0 .fixed, .wait)
      else (.running (advance resume e.version), .relay e)
    | .running resume, .closed => (.closed resume, .wait)
    | .closed resume, .resume => (.connect resume 0 .immediate, .wait)
    | s, _ => (s, .wait)

end State

end SharedWatch.Connection
