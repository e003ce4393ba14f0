import SharedWatch.Number.Binary64

/-!
The shortest decimal that reads back as a given number.

The reals that round to a number form an interval, with its ends when the mantissa is even. For
one digit, two digits and so on up to seventeen, the two neighbours of the number on that decimal
grid are tried; the first grid with a neighbour in the interval wins, of two the nearer, of two
equally near the even one.
-/

namespace SharedWatch

/-- The decimal `digits · 10 ^ exponent`. -/
structure Decimal where
  digits : Nat
  exponent : Int
  deriving DecidableEq, Repr

namespace Binary64

/-- The interval of reals that round to a number, over a common denominator, with its ends or
without. -/
structure Neighbourhood where
  low : Nat
  value : Nat
  high : Nat
  den : Nat
  closed : Bool

/-- The reals that round to the number. Below a power of two the steps are half as wide. -/
def neighbourhood (x : Binary64) : Neighbourhood :=
  let narrow := x.mantissa = 4503599627370496 ∧ leastExponent < x.exponent
  let up := if 0 ≤ x.exponent then Nat.pow 2 x.exponent.toNat else 1
  let down := if 0 ≤ x.exponent then 1 else Nat.pow 2 (-x.exponent).toNat
  { low := (4 * x.mantissa - if narrow then 1 else 2) * up
    value := 4 * x.mantissa * up
    high := (4 * x.mantissa + 2) * up
    den := 4 * down
    closed := x.mantissa % 2 = 0 }

/-- The value `n · 10 ^ k` over the denominator `den`, and `10 ^ k` cleared from below: numerator
and the factor that the other numerators take. -/
def onGrid (n : Nat) (k : Int) (den : Nat) : Nat × Nat :=
  if 0 ≤ k then (n * Nat.pow 10 k.toNat * den, 1) else (n * den, Nat.pow 10 (-k).toNat)

/-- Whether `n · 10 ^ k` lies in the interval. -/
def Neighbourhood.holds (h : Neighbourhood) (n : Nat) (k : Int) : Bool :=
  let (a, f) := onGrid n k h.den
  if h.closed then h.low * f ≤ a && a ≤ h.high * f else h.low * f < a && a < h.high * f

/-- The point just below the value on the grid of step `10 ^ k`. -/
def Neighbourhood.below (h : Neighbourhood) (k : Int) : Nat :=
  if 0 ≤ k then h.value / (h.den * Nat.pow 10 k.toNat) else h.value * Nat.pow 10 (-k).toNat / h.den

/-- How far `n · 10 ^ k` is from the value, in units that depend on `k` alone. -/
def Neighbourhood.distance (h : Neighbourhood) (n : Nat) (k : Int) : Nat :=
  let (a, f) := onGrid n k h.den
  (a - h.value * f) + (h.value * f - a)

/-- The point of the grid of step `10 ^ k` that stands for the value, if one lies in the interval.
-/
def Neighbourhood.pick (h : Neighbourhood) (k : Int) : Option Nat :=
  let n := h.below k
  match h.holds n k, h.holds (n + 1) k with
  | false, false => none
  | true, false => some n
  | false, true => some (n + 1)
  | true, true =>
    if h.distance n k < h.distance (n + 1) k then some n
    else if h.distance (n + 1) k < h.distance n k then some (n + 1)
    else some (if n % 2 = 0 then n else n + 1)

/-- The first grid from step `10 ^ k` downwards, `steps` of them, that has a point for the value. -/
def Neighbourhood.search (h : Neighbourhood) : (steps : Nat) → (k : Int) → Decimal
  | 0, k => ⟨h.below k, k⟩
  | steps + 1, k =>
    match h.pick k with
    | some n => ⟨n, k⟩
    | none => h.search steps (k - 1)

/-- Whether `10 ^ k` is at most `num / den`. -/
def reaches (num den : Nat) (k : Int) : Bool :=
  if 0 ≤ k then Nat.pow 10 k.toNat * den ≤ num else den ≤ num * Nat.pow 10 (-k).toNat

/-- The exponent of the first digit of `num / den`, from the estimate that its bits give. -/
def leading (num den : Nat) : Int :=
  let guess : Int := ((num.log2 : Int) - (den.log2 : Int)) * 30103 / 100000
  if reaches num den (guess + 1) then guess + 1
  else if reaches num den guess then guess
  else guess - 1

/-- The decimal without zeros at the end of its digits; `fuel` bounds how many go. -/
def Decimal.strip : (fuel : Nat) → Decimal → Decimal
  | 0, d => d
  | fuel + 1, d =>
    if d.digits ≠ 0 ∧ d.digits % 10 = 0 then strip fuel ⟨d.digits / 10, d.exponent + 1⟩ else d

/-- The shortest decimal that reads back as the magnitude of the number. -/
def shortest (x : Binary64) : Decimal :=
  let h := x.neighbourhood
  let d := h.search 17 (leading h.value h.den)
  Decimal.strip 20 d

end Binary64

end SharedWatch
