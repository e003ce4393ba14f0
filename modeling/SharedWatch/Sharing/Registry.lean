import SharedWatch.Sharing.Handler

/-!
Which handler serves which target.

A handler keeps its number for ever, and at most one serves a target. Each operation is one section
under a lock: a handler may have stopped and still be listed until it is forgotten, so `subscribe`
replaces a stopped one, and `forget` leaves a newer one alone.
-/

namespace SharedWatch

/-- Every handler that was started, and the numbers of those that serve. -/
structure Registry where
  /-- A handler's number is its place. -/
  handlers : List Handler
  serving : List (Target × Nat)

namespace Registry

def empty : Registry := ⟨[], []⟩

def handler? (r : Registry) (k : Nat) : Option Handler := r.handlers[k]?

/-- The number listed for a target. -/
def number? (r : Registry) (target : Target) : Option Nat :=
  (r.serving.find? fun x => x.1 == target).map (·.2)

/-- The handler listed for a target. -/
def serving? (r : Registry) (target : Target) : Option Handler :=
  (r.number? target).bind r.handler?

def change (r : Registry) (k : Nat) (f : Handler → Handler) : Registry :=
  { r with handlers := r.handlers.modify k f }

/-- Starts a handler for a target and lists it in place of another. -/
def start (r : Registry) (target : Target) : Registry :=
  { handlers := r.handlers ++ [.new target]
    serving := (target, r.handlers.length) :: r.serving.filter fun x => x.1 != target }

/-- Finds the handler that takes subscribers for a target, or starts one. -/
def enlist (r : Registry) (target : Target) : Registry × Nat :=
  match r.number? target with
  | none => (r.start target, r.handlers.length)
  | some k =>
    if (r.handler? k).any (fun h => !h.stopped) then (r, k)
    else (r.start target, r.handlers.length)

/-- Takes a subscriber in: the number of its handler and what it is sent first. -/
def subscribe (r : Registry) (target : Target) (s : Subscriber) :
    Registry × Nat × List Change :=
  let (r, k) := r.enlist target
  let primed := ((r.handler? k).map fun h => h.primed s.filter).getD []
  (r.change k (·.attach s), k, primed)

def stopped (r : Registry) (k : Nat) : Bool := (r.handler? k).all (·.stopped)

/-- Takes a handler off the list, unless a newer one has its place. -/
def forget (r : Registry) (k : Nat) : Registry :=
  { r with serving := r.serving.filter fun x => x.2 != k }

def targets (r : Registry) : List Target := r.serving.map (·.1)

end Registry

end SharedWatch
