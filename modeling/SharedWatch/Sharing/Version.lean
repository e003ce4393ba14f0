import SharedWatch.Text.Numeral

/-!
Resource versions.

A version is an opaque text, but servers issue decimal counters: two versions that are numerals of
an unsigned 64-bit word are compared as numbers. Any other two can only be told apart.
-/

namespace SharedWatch

/-- The number that a version stands for, if it is a counter. -/
def counter? (version : String) : Option Nat := Text.numeral? Text.word64 version

/-- Whether `candidate` is a later version than `last`; of versions that are no counters, whether it
is another one. -/
def supersedes (candidate last : String) : Bool :=
  match counter? candidate, counter? last with
  | some c, some l => l < c
  | _, _ => candidate != last

end SharedWatch
