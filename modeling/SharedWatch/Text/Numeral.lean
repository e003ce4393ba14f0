/-!
Unsigned numerals.

A numeral is one optional plus sign and then one or more ASCII digits, nothing else. It is read
within a bound: a value at or above the bound is no numeral.
-/

namespace SharedWatch.Text

def isDigit (c : Char) : Bool := '0' ≤ c && c ≤ '9'

def digitValue (c : Char) : Nat := c.toNat - 48

/-- The value of a row of digits, the first one weighing most. -/
def digitsValue (cs : List Char) : Nat := cs.foldl (fun n c => 10 * n + digitValue c) 0

/-- The value of a non-empty row of digits. -/
def digits? (cs : List Char) : Option Nat :=
  if cs.isEmpty || !cs.all isDigit then none else some (digitsValue cs)

/-- The digits of a numeral: a single leading plus sign does not count. -/
def unsign : List Char → List Char
  | '+' :: rest => rest
  | cs => cs

/-- The value of a numeral below `bound`. -/
def numeral? (bound : Nat) (s : String) : Option Nat :=
  (digits? (unsign s.toList)).filter (· < bound)

/-- One more than the largest value of an unsigned 64-bit word. -/
def word64 : Nat := 18446744073709551616

/-- One more than the largest value of an unsigned 32-bit word. -/
def word32 : Nat := 4294967296

end SharedWatch.Text
