/-!
Finite binary floating-point numbers of 64 bits, in exact arithmetic.

A number is a sign, a mantissa below `2 ^ 53` and an exponent of two. `ofRatio` rounds an exact
quotient to the nearest number, a tie to the even mantissa, and gives nothing beyond the largest
finite number; products and quotients are the exact result rounded once.
-/

namespace SharedWatch

/-- The finite number `± mantissa · 2 ^ exponent`. -/
structure Binary64 where
  negative : Bool
  mantissa : Nat
  exponent : Int
  deriving DecidableEq, Repr

namespace Binary64

/-- The least exponent, that of the smallest steps next to zero. -/
def leastExponent : Int := -1074

/-- The greatest exponent of a finite number. -/
def greatestExponent : Int := 971

def zero (negative : Bool) : Binary64 := ⟨negative, 0, leastExponent⟩

def isZero (x : Binary64) : Bool := x.mantissa == 0

/-- The natural number nearest to `num / den`; of two equally near, the even one. -/
def nearest (num den : Nat) : Nat :=
  let q := num / den
  let r := num % den
  if 2 * r < den then q
  else if den < 2 * r then q + 1
  else if q % 2 = 0 then q else q + 1

/-- The quotient `num / den / 2 ^ e` as numerator and denominator. -/
def scaleDown (num den : Nat) (e : Int) : Nat × Nat :=
  if 0 ≤ e then (num, den * Nat.pow 2 e.toNat) else (num * Nat.pow 2 (-e).toNat, den)

/-- The exponent at which the mantissa of `num / den` has 53 bits, or the least one. -/
def exponentOf (num den : Nat) : Int :=
  let e : Int := (num.log2 : Int) - (den.log2 : Int) - 53
  let (n, d) := scaleDown num den e
  max (if n / d < 9007199254740992 then e else e + 1) leastExponent

/-- `num / den` rounded to the nearest number; nothing when it is too large to be finite. -/
def ofRatio (negative : Bool) (num den : Nat) : Option Binary64 :=
  if num = 0 then some (zero negative)
  else
    let e := exponentOf num den
    let (n, d) := scaleDown num den e
    let m := nearest n d
    let (m, e) := if m = 9007199254740992 then (4503599627370496, e + 1) else (m, e)
    if greatestExponent < e then none else some ⟨negative, m, e⟩

/-- The number nearest to a natural number; nothing when that is too large. -/
def ofNat (negative : Bool) (n : Nat) : Option Binary64 := ofRatio negative n 1

/-- The magnitude as numerator and denominator. -/
def ratio (x : Binary64) : Nat × Nat :=
  if 0 ≤ x.exponent then (x.mantissa * Nat.pow 2 x.exponent.toNat, 1)
  else (x.mantissa, Nat.pow 2 (-x.exponent).toNat)

/-- The product, rounded once. -/
def mul (x y : Binary64) : Option Binary64 :=
  let (a, b) := x.ratio
  let (c, d) := y.ratio
  ofRatio (x.negative != y.negative) (a * c) (b * d)

/-- The quotient by a number that is not zero, rounded once. -/
def div (x y : Binary64) : Option Binary64 :=
  let (a, b) := x.ratio
  let (c, d) := y.ratio
  ofRatio (x.negative != y.negative) (a * d) (b * c)

/-- The same magnitude with the given sign. -/
def withSign (x : Binary64) (negative : Bool) : Binary64 := { x with negative }

end Binary64

end SharedWatch
