import SharedWatch.Resource.Record

/-!
Bounded stores of entries under keys.

A cache keeps its entries in a store that it is given, and `EntryStore` is what it asks of one. A
store is built for a capacity and a lifetime; what these end may stay in it until it is told to
settle. `Shelf` is a store that puts nothing off: a list, the least recently used entry first.
-/

namespace SharedWatch

/-- A stored text, and what it counts against the capacity. -/
structure CacheEntry where
  text : String
  cost : Nat
  deriving DecidableEq

/-- An entry under its key. -/
structure Cached where
  key : ResourceId
  entry : CacheEntry
  /-- When the entry was stored, in nanoseconds. -/
  written : Nat
  deriving DecidableEq

namespace Cached

def cost (x : Cached) : Nat := x.entry.cost

/-- What some entries cost together. -/
def total : List Cached → Nat
  | [] => 0
  | x :: rest => x.cost + total rest

def without (key : ResourceId) (entries : List Cached) : List Cached :=
  entries.filter fun x => x.key != key

def lookup (key : ResourceId) (entries : List Cached) : Option Cached :=
  entries.find? fun x => x.key == key

end Cached

open Cached

/-- The bounds that a store is built for; one that is left out does not bind. -/
structure StoreBounds where
  /-- What all entries together may cost. -/
  capacity : Option Nat
  /-- For how many nanoseconds an entry is served. -/
  lifetime : Option Nat
  deriving DecidableEq

namespace StoreBounds

/-- Whether the entries are within the capacity. -/
def holds (b : StoreBounds) (entries : List Cached) : Bool :=
  b.capacity.all fun n => total entries ≤ n

/-- Whether an entry is still served at the given time. -/
def serves (b : StoreBounds) (now : Nat) (x : Cached) : Bool :=
  b.lifetime.all fun n => now < x.written + n

/-- The entry that is served under a key. -/
def found (b : StoreBounds) (now : Nat) (key : ResourceId) (entries : List Cached) :
    Option Cached := (lookup key entries).filter (b.serves now)

/-- The entries after a key is looked up: what is found is the most recently used one. -/
def touch (b : StoreBounds) (now : Nat) (key : ResourceId) (entries : List Cached) :
    List Cached :=
  match b.found now key entries with
  | none => entries
  | some x => without key entries ++ [x]

/-- Drops the least recently used entries until the rest is within the capacity. -/
def evict (b : StoreBounds) : List Cached → List Cached
  | [] => []
  | x :: rest => if b.holds (x :: rest) then x :: rest else b.evict rest

/-- The entries within both bounds: those past their time go before any other. -/
def within (b : StoreBounds) (now : Nat) (entries : List Cached) : List Cached :=
  b.evict (entries.filter (b.serves now))

end StoreBounds

/-- A store of entries that evicts by recency of use. -/
class EntryStore (σ : StoreBounds → Type) where
  build (b : StoreBounds) : σ b
  /-- Stores an entry in the place of the one under its key. -/
  insert {b : StoreBounds} (store : σ b) (now : Nat) (key : ResourceId) (entry : CacheEntry) : σ b
  /-- The entry that is served under a key, and the store after it is used. -/
  get {b : StoreBounds} (store : σ b) (now : Nat) (key : ResourceId) : Option CacheEntry × σ b
  /-- Takes out the entry under a key. -/
  invalidate {b : StoreBounds} (store : σ b) (key : ResourceId) : σ b
  /-- Carries out all evictions and expirations that are due. -/
  settle {b : StoreBounds} (store : σ b) (now : Nat) : σ b
  /-- How many entries the store counts, which may be behind until it settles. -/
  count {b : StoreBounds} (store : σ b) : Nat
  /-- What they cost, by the same count. -/
  weight {b : StoreBounds} (store : σ b) : Nat

/-- A store that keeps within its bounds at once: its entries, the least recently used first. -/
structure Shelf (b : StoreBounds) where
  entries : List Cached

namespace Shelf
variable {b : StoreBounds}

/-- A new key that alone exceeds the capacity is not taken in; under a key that is there, such an
entry takes all others with it. -/
def insert (s : Shelf b) (now : Nat) (key : ResourceId) (entry : CacheEntry) : Shelf b :=
  let x : Cached := ⟨key, entry, now⟩
  let served := s.entries.filter (b.serves now)
  if (lookup key served).isNone && !b.holds [x] then ⟨served⟩
  else ⟨b.within now (without key s.entries ++ [x])⟩

def get (s : Shelf b) (now : Nat) (key : ResourceId) : Option CacheEntry × Shelf b :=
  ((b.found now key s.entries).map Cached.entry, ⟨b.touch now key s.entries⟩)

def invalidate (s : Shelf b) (key : ResourceId) : Shelf b := ⟨without key s.entries⟩

def settle (s : Shelf b) (now : Nat) : Shelf b := ⟨b.within now s.entries⟩

end Shelf

instance : EntryStore Shelf where
  build _ := ⟨[]⟩
  insert := Shelf.insert
  get := Shelf.get
  invalidate := Shelf.invalidate
  settle := Shelf.settle
  count s := s.entries.length
  weight s := total s.entries

end SharedWatch
