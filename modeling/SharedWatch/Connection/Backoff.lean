import SharedWatch.Time.Span

/-!
Capped exponential backoff with jitter.

The `n`-th delay is drawn from the upper half of a window whose ceiling is the base doubled `n`
times, capped at the limit. Doubling stops after thirty-one steps.
-/

namespace SharedWatch

/-- The delays between attempts: where they start, where they end, and how many were drawn since the
last reset. -/
structure Backoff where
  base : Span
  limit : Span
  drawn : Nat
  deriving DecidableEq, Repr

namespace Backoff

/-- No delay drawn yet; the limit is never below the base. -/
def new (base max : Span) : Backoff := { base, limit := max.max base, drawn := 0 }

/-- The longest delay of the given number: the base times a power of two, at most the limit, also
where the product leaves the range of spans. -/
def ceiling (b : Backoff) (n : Nat) : Span :=
  match b.base.times? (Nat.pow 2 (min n 31)) with
  | some d => d.min b.limit
  | none => b.limit

/-- A delay from the upper half of the window below `ceiling`; `choice` says which one. -/
def draw (ceiling : Span) (choice : Nat) : Span :=
  let floor := ceiling.half
  if ceiling.le floor then ceiling
  else
    let steps := ceiling.total - floor.total + 1
    (Span.make? floor.secs (floor.nanos + choice % steps)).getD ceiling

/-- The next delay, and the backoff after it. The count stays in an unsigned 32-bit word. -/
def next (b : Backoff) (choice : Nat) : Span × Backoff :=
  (draw (b.ceiling b.drawn) choice, { b with drawn := min (b.drawn + 1) 4294967295 })

def reset (b : Backoff) : Backoff := { b with drawn := 0 }

end Backoff

end SharedWatch
