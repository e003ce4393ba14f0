/-!
Spans of time: whole seconds in an unsigned 64-bit word and nanoseconds below one second.

`total` is the span in nanoseconds. `times?` multiplies with the carry from the nanoseconds into the
seconds and gives nothing when the seconds leave their word.
-/

namespace SharedWatch

/-- A span of time, counted in seconds and in nanoseconds of the last, unfinished second. -/
structure Span where
  secs : Nat
  nanos : Nat
  secs_lt : secs < 18446744073709551616
  nanos_lt : nanos < 1000000000
  deriving DecidableEq, Repr

namespace Span

def zero : Span := ⟨0, 0, by decide, by decide⟩

def longest : Span := ⟨18446744073709551615, 999999999, by decide, by decide⟩

/-- The span in nanoseconds. -/
def total (s : Span) : Nat := s.secs * 1000000000 + s.nanos

/-- The span of so many seconds and nanoseconds, if the seconds fit their word. -/
def make? (secs nanos : Nat) : Option Span :=
  if h : secs + nanos / 1000000000 < 18446744073709551616 then
    some ⟨secs + nanos / 1000000000, nanos % 1000000000, h, Nat.mod_lt _ (by decide)⟩
  else none

/-- The span of so many seconds; the longest one where they do not fit. -/
def ofSecs (n : Nat) : Span := (make? n 0).getD longest

/-- The span of so many milliseconds; the longest one where they do not fit. -/
def ofMillis (n : Nat) : Span := (make? (n / 1000) (n % 1000 * 1000000)).getD longest

/-- Whether the first span is no longer than the second: seconds first, then nanoseconds. -/
def le (a b : Span) : Bool := a.secs < b.secs || (a.secs == b.secs && a.nanos ≤ b.nanos)

def min (a b : Span) : Span := if a.le b then a else b

def max (a b : Span) : Span := if a.le b then b else a

/-- The span `k` times over, if its seconds fit their word. -/
def times? (s : Span) (k : Nat) : Option Span := make? (s.secs * k) (s.nanos * k)

/-- Half of the span, rounded down to a nanosecond. -/
def half (s : Span) : Span where
  secs := s.secs / 2
  nanos := (s.secs % 2 * 1000000000 + s.nanos) / 2
  secs_lt := by have := s.secs_lt; omega
  nanos_lt := by have := s.nanos_lt; omega

end Span

end SharedWatch
