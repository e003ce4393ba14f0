/-!
Bounded queues between a writer and a reader.

A writer puts an item in only while there is room; it finds out that the reader has gone when it
tries.
-/

namespace SharedWatch

/-- The items of a queue, the first to be read first. -/
structure Queue (α : Type) where
  capacity : Nat
  items : List α
  /-- Whether the reader has gone. -/
  abandoned : Bool
  deriving DecidableEq

namespace Queue

variable {α : Type}

/-- A queue with some items in it already, which take no room from later ones. -/
def primed (capacity : Nat) (items : List α) : Queue α :=
  ⟨capacity + items.length, items, false⟩

def hasRoom (q : Queue α) : Bool := q.items.length < q.capacity

def push (q : Queue α) (x : α) : Queue α := { q with items := q.items ++ [x] }

def pop? (q : Queue α) : Option (α × Queue α) :=
  match q.items with
  | [] => none
  | x :: rest => some (x, { q with items := rest })

/-- The queue after its reader has gone; what was in it is lost. -/
def abandon (q : Queue α) : Queue α := { q with items := [], abandoned := true }

end Queue

end SharedWatch
