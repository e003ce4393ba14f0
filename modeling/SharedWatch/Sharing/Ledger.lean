import SharedWatch.Resource.Change
import SharedWatch.Sharing.Version

/-!
The last event that was let through for each resource.

A ledger refuses a version that it has seen or passed. `get?` is its view: `record` sets one
resource, `prune` forgets the deleted ones, `carry` fills in what an older ledger knows of others.
-/

namespace SharedWatch

/-- The last event let through for one resource. -/
structure Entry where
  version : String
  kind : ChangeKind
  object : Record
  deriving DecidableEq

/-- Whether the resource exists after the event. -/
def Entry.isLive (e : Entry) : Bool := e.kind != .deleted

/-- One entry for each known resource, in the order in which they became known. -/
structure Ledger where
  entries : List (ResourceName × Entry)
  distinct : entries.Pairwise (fun a b => a.1 ≠ b.1)

namespace Ledger

def empty : Ledger := ⟨[], List.Pairwise.nil⟩

def size (l : Ledger) : Nat := l.entries.length

def find? (name : ResourceName) : List (ResourceName × Entry) → Option Entry
  | [] => none
  | (n, e) :: rest => if n = name then some e else find? name rest

def get? (l : Ledger) (name : ResourceName) : Option Entry := find? name l.entries

def contains (l : Ledger) (name : ResourceName) : Bool := (l.get? name).isSome

/-- The entries with that of one resource replaced where it stands, or added at the end. -/
def put (name : ResourceName) (e : Entry) :
    List (ResourceName × Entry) → List (ResourceName × Entry)
  | [] => [(name, e)]
  | (n, f) :: rest => if n = name then (n, e) :: rest else (n, f) :: put name e rest

theorem put_names {name : ResourceName} {e : Entry} {entries : List (ResourceName × Entry)}
    {x : ResourceName × Entry} (h : x ∈ put name e entries) :
    x.1 = name ∨ ∃ y ∈ entries, y.1 = x.1 := by
  induction entries with
  | nil => simp [put] at h; simp [h]
  | cons y rest ih =>
    obtain ⟨n, f⟩ := y
    simp only [put] at h
    split at h
    · rename_i hn
      rcases List.mem_cons.mp h with rfl | h
      · exact Or.inl hn
      · exact Or.inr ⟨x, List.mem_cons_of_mem _ h, rfl⟩
    · rcases List.mem_cons.mp h with rfl | h
      · exact Or.inr ⟨_, List.mem_cons_self, rfl⟩
      · rcases ih h with h | ⟨y, hy, hyx⟩
        · exact Or.inl h
        · exact Or.inr ⟨y, List.mem_cons_of_mem _ hy, hyx⟩

theorem put_distinct {name : ResourceName} {e : Entry} {entries : List (ResourceName × Entry)}
    (h : entries.Pairwise (fun a b => a.1 ≠ b.1)) :
    (put name e entries).Pairwise (fun a b => a.1 ≠ b.1) := by
  induction entries with
  | nil => simp [put]
  | cons y rest ih =>
    obtain ⟨n, f⟩ := y
    have hy := List.pairwise_cons.mp h
    simp only [put]
    split
    · exact List.pairwise_cons.mpr ⟨hy.1, hy.2⟩
    · rename_i hn
      refine List.pairwise_cons.mpr ⟨?_, ih hy.2⟩
      intro x hx
      rcases put_names hx with hx | ⟨z, hz, hzx⟩
      · rw [hx]; exact hn
      · rw [← hzx]; exact hy.1 z hz

def record (l : Ledger) (name : ResourceName) (e : Entry) : Ledger :=
  ⟨put name e l.entries, put_distinct l.distinct⟩

/-- Whether a version of a resource is let through: the first one is, later ones when they supersede
the last. -/
def accepts (l : Ledger) (name : ResourceName) (version : String) : Bool :=
  match l.get? name with
  | none => true
  | some last => supersedes version last.version

/-- The ledger after an event was offered: changed only if it is let through. -/
def accept (l : Ledger) (kind : ChangeKind) (object : Record) (version : String) : Ledger :=
  if l.accepts object.resource version then l.record object.resource ⟨version, kind, object⟩ else l

/-- What a replayed addition is to those who follow this ledger: a change of a resource that is
live, else an addition. -/
def replayKind (l : Ledger) (name : ResourceName) : ChangeKind :=
  match l.get? name with
  | some e => if e.isLive then .modified else .added
  | none => .added

/-- Forgets the deleted resources. -/
def prune (l : Ledger) : Ledger :=
  ⟨l.entries.filter (fun x => x.2.isLive), l.distinct.filter _⟩

/-- Takes over what an older ledger knows of resources that this one does not know. -/
def carry (l older : Ledger) : Ledger :=
  older.entries.foldl (fun l x => if l.contains x.1 then l else l.record x.1 x.2) l

def live (l : Ledger) : List Record := (l.entries.filter (fun x => x.2.isLive)).map (·.2.object)

end Ledger

end SharedWatch
