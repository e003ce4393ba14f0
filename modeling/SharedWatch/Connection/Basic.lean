import SharedWatch.Settings
import SharedWatch.Connection.Backoff
import SharedWatch.Connection.Machine
import SharedWatch.Connection.Request

/-!
One connection as it runs: its state, its backoff and what it is busy with.

`Connection.receive` tells a connection how its current task went and gives it the next one. A
connection is never cancelled behind its own back: the outcome `cancelled` may arrive in every task,
and after it the connection is done.
-/

namespace SharedWatch

namespace Connection

/-- What a connection is busy with. -/
inductive Task where
  /-- Asking for a watch after a pause. -/
  | opening (pause : Span) (request : OpenRequest)
  /-- Waiting for the next item of the open stream. -/
  | following
  /-- Handing an item to the reader, who may have no room for it yet. -/
  | sending (item : Notice)
  | done
  deriving DecidableEq

/-- How a task went. -/
inductive Outcome where
  | opened
  | refused (reason : String)
  | item (i : StreamItem)
  | sent
  /-- The reader has gone. -/
  | abandoned
  | cancelled
  deriving DecidableEq

end Connection

structure Connection where
  /-- The labels that the server selects by. -/
  selector : Option String
  settings : WatchSettings
  state : Connection.State
  backoff : Backoff
  task : Connection.Task
  deriving DecidableEq

namespace Connection

/-- The request from a resume point. -/
def request (c : Connection) (resume : Option String) : OpenRequest :=
  { labelSelector := c.selector, bookmarks := true, resume
    timeout := some c.settings.serverTimeout }

/-- The pause before an attempt, and the backoff after it was chosen. -/
def pause (c : Connection) (delay : Delay) (choice : Nat) : Span × Backoff :=
  match delay with
  | .immediate => (.zero, c.backoff)
  | .fixed => (c.settings.errorPause, c.backoff)
  | .backoff => c.backoff.next choice

/-- Takes up the task that belongs to the state. -/
def proceed (c : Connection) (choice : Nat) : Connection :=
  match c.state with
  | .connect resume _ delay =>
    let (pause, backoff) := c.pause delay choice
    { c with backoff, task := .opening pause (c.request resume) }
  | .running _ => { c with task := .following }
  | .closed _ => { c with task := .done }
  | .failed => { c with task := .done }
  | .cancelled => { c with task := .done }

/-- Opens again after the server closed the stream. -/
def reopen (c : Connection) : Connection :=
  match c.state with
  | .closed _ => { c with state := (c.state.step .resume c.settings.connectAttempts).1 }
  | _ => c

/-- Does what the state machine asks for. -/
def perform (c : Connection) (action : Action) (choice : Nat) : Connection :=
  match action with
  | .wait => c.reopen.proceed choice
  | .stop => c.reopen.proceed choice
  | .announce resumed =>
    { c with backoff := c.backoff.reset, task := .sending (.opened resumed) }
  | .relay e => { c with task := .sending (.event e) }
  | .terminate reason => { c with task := .sending (.event (.error reason)) }

/-- Feeds a signal to the state machine. -/
def signal (c : Connection) (s : Signal) (choice : Nat) : Connection :=
  let (state, action) := c.state.step s c.settings.connectAttempts
  { c with state }.perform action choice

/-- The end of a connection that its client no longer wants. -/
def stop (c : Connection) : Connection := { c with state := .cancelled, task := .done }

/-- A connection that is about to open for the first time. -/
def start (settings : WatchSettings) (selector : Option String) : Connection :=
  proceed { selector, settings, state := .initial, task := .done
            backoff := .new settings.backoffBase settings.backoffMax } 0

/-- The connection after its task went in the given way; an outcome that does not fit the task
changes nothing. `choice` picks the delay of a backoff from its window. -/
def receive (c : Connection) (o : Outcome) (choice : Nat) : Connection :=
  match c.task, o with
  | .done, _ => c
  | .sending _, .sent => c.proceed choice
  | .sending _, .abandoned => c.stop
  | .sending _, .cancelled => c.stop
  | .opening _ _, .opened => c.signal .opened choice
  | .opening _ _, .refused reason => c.signal (.openFailed reason) choice
  | .opening _ _, .cancelled => c.signal .cancel choice
  | .following, .item (.event e) => c.signal (.event e) choice
  | .following, .item (.broken _) => c.signal .closed choice
  | .following, .item .ended => c.signal .closed choice
  | .following, .cancelled => c.signal .cancel choice
  | _, _ => c

/-- Whether the connection holds on to its stream: while it follows it or hands on what came from
it. -/
def holdsStream (c : Connection) : Bool :=
  match c.task with
  | .following => true
  | .sending _ => true
  | _ => false

def isDone (c : Connection) : Bool := c.task = .done

end Connection

end SharedWatch
