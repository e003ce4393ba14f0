/-!
What a watch covers: the resources of one kind, in one namespace or in all.
-/

namespace SharedWatch

/-- The resources of the kind with the given key, in one namespace or, without one, in all. -/
structure Target where
  gvk : String
  ns : Option String
  deriving DecidableEq, Repr

/-- A target as shown to users. -/
def Target.display (t : Target) : String := t.gvk ++ "@" ++ t.ns.getD "(all)"

end SharedWatch
