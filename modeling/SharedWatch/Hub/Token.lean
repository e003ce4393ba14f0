/-!
Cancellation tokens: cancelling one cancels all that descend from it.
-/

namespace SharedWatch

/-- A token and those it descends from. -/
structure Token where
  number : Nat
  ancestors : List Nat
  deriving DecidableEq, Repr

/-- How many tokens were issued and which of them were cancelled. -/
structure Tokens where
  issued : Nat
  cancelled : List Nat
  deriving DecidableEq, Repr

namespace Tokens

def none : Tokens := ⟨0, []⟩

def issue (t : Tokens) (parent : Option Token) : Token × Tokens :=
  (⟨t.issued, parent.elim [] fun p => p.number :: p.ancestors⟩, { t with issued := t.issued + 1 })

def cancel (t : Tokens) (x : Token) : Tokens := { t with cancelled := x.number :: t.cancelled }

/-- Whether the token or one that it descends from was cancelled. -/
def isCancelled (t : Tokens) (x : Token) : Bool :=
  (x.number :: x.ancestors).any t.cancelled.contains

end Tokens

end SharedWatch
