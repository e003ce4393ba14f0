import SharedWatch.Resource.Change
import SharedWatch.Store.Cache

/-!
Keeping a cache in step with a watch: what one event does to it.
-/

namespace SharedWatch

namespace Cache
variable {σ : StoreBounds → Type} [EntryStore σ]

def setRecord (c : Cache σ) (now : Nat) (kind : String) (r : Record) : Bool × Cache σ :=
  c.set now (r.key kind) r.toJson

def getRecord (c : Cache σ) (now : Nat) (key : ResourceId) : Option Record × Cache σ :=
  c.get now Record.reader key

/-- Applies one event; answers whether it is one that can touch the cache. A changed record takes
the place of the old one even when it is itself refused. -/
def apply (c : Cache σ) (now : Nat) (kind : String) (e : Change) : Bool × Cache σ :=
  match e.kind with
  | .added => (true, (c.setRecord now kind e.object).2)
  | .modified => (true, ((c.delete (e.object.key kind)).setRecord now kind e.object).2)
  | .deleted => (true, c.delete (e.object.key kind))
  | .bookmark => (false, c)
  | .error => (false, c)

end Cache

end SharedWatch
