import SharedWatch.CommandLine.Render
import SharedWatch.Hub.Service
import SharedWatch.Hub.Step

/-!
What the commands do with a hub.

`watch` ends with the first error that the server reports, and with the stream; `mirror` ends when
it is interrupted.
-/

namespace SharedWatch.CommandLine

/-- What a command did. -/
structure Report where
  /-- The texts that were printed. -/
  printed : List String
  /-- Why the command failed, if it did. -/
  failure : Option String
  deriving DecidableEq, Repr

namespace Report

/-- A command that failed at once. -/
def refusal (e : ServiceFailure) : Report := ⟨[], some e.message⟩

/-- The failure that a change means for the command that prints it. -/
def failureOf (e : Change) : Option String :=
  if e.kind = .error then some (WatchFailure.server (e.message.getD "")).message else none

/-- The report of changes that were printed, the last of which may be an error. -/
def ofChanges (output : Output) (changes : List Change) : Report :=
  ⟨changes.map output.change, changes.getLast?.bind failureOf⟩

variable {σ : Type}

/-- Prints the changes of a shared watch. -/
def watchShared [WatchServer σ] (hub : Hub σ) (output : Output) (target : Target)
    (filter : Filter) : Report :=
  match hub.subscribe target filter none with
  | .error e => refusal (.ofWatch e)
  | .ok (number, _, hub) =>
    ofChanges output (Hub.follow (·.read? number) (·.isClosed number) (·.kind = .error)
      Hub.patience hub)

/-- The change that an item of a direct watch brings to a reader, who may not want bookmarks. -/
def changeOf? (bookmarks : Bool) : Notice → Option Change
  | .opened _ => none
  | .event e => if e.kind = .bookmark ∧ !bookmarks then none else some e

/-- Whether a direct watch ends with this item. -/
def isError : Notice → Bool
  | .opened _ => false
  | .event e => e.kind = .error

/-- Prints the changes of a direct watch. -/
def watchDirect [WatchServer σ] (hub : Hub σ) (output : Output) (target : Target)
    (filter : Filter) : Report :=
  let (token, hub) := hub.issueToken none
  match hub.watchDirect target filter token with
  | .error e => refusal (.ofWatch e)
  | .ok (link, hub) =>
    let items := Hub.follow (·.readLink? link) (·.isLinkClosed link) isError Hub.patience hub
    ofChanges output (items.filterMap (changeOf? filter.bookmarks))

/-- Keeps a cache of a target for so many nanoseconds, then prints how much it holds. -/
def mirror [WatchServer σ] (hub : Hub σ) (output : Output) (target : Target) (span : Nat) :
    Report :=
  let (token, hub) := hub.issueToken none
  match hub.mirror target token with
  | .error e => refusal e
  | .ok hub =>
    let hub := ((hub.settle span).cancel token).settle 0
    ⟨[output.usage target.gvk (hub.cache.expire hub.clock).stats], none⟩

def get [WatchServer σ] (hub : Hub σ) (output : Output) (key : ResourceId) : Report :=
  match (hub.get key).1 with
  | .error e => refusal e
  | .ok r => ⟨[output.object r], none⟩

/-- Does what was asked for; a mirror is interrupted after so many nanoseconds. -/
def ofInvocation [WatchServer σ] (hub : Hub σ) (asked : Invocation) (span : Nat) : Report :=
  match asked.command with
  | .watch gvk filter true => watchDirect hub asked.output ⟨gvk, asked.ns⟩ filter
  | .watch gvk filter false => watchShared hub asked.output ⟨gvk, asked.ns⟩ filter
  | .mirror gvk => mirror hub asked.output ⟨gvk, asked.ns⟩ span
  | .get gvk name => get hub asked.output ⟨gvk, asked.ns.getD "", name⟩

end Report

end SharedWatch.CommandLine
