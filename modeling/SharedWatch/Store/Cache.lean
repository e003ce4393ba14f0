import SharedWatch.Settings
import SharedWatch.Json.Shape
import SharedWatch.Store.Shelf
import SharedWatch.Wire.Record

/-!
An advisory cache of resources.

A value is kept as its JSON text; the length of the text and a fixed overhead are what the entry
costs. The entries are in a bounded store, which evicts by recency when there is a budget and ends
an entry by the clock when there is a lifetime; an item limit refuses what costs too much. Each of
the three bounds is switched off by zero. Readers must treat a miss as normal.
-/

namespace SharedWatch

/-- What an entry costs beside its text. -/
def entryOverhead : Nat := 24

/-- What a cache asks its store to keep within. -/
def CacheSettings.bounds (settings : CacheSettings) : StoreBounds where
  capacity := if settings.budget = 0 then none else some settings.budget
  lifetime := if settings.lifetime.total = 0 then none else some settings.lifetime.total

/-- A cache over a store that is built for its settings; a shelf unless another is given. -/
structure Cache (σ : StoreBounds → Type := Shelf) where
  settings : CacheSettings
  store : σ settings.bounds

/-- How much is in a cache. -/
structure CacheUsage where
  entries : Nat
  bytes : Nat
  deriving DecidableEq, Repr

namespace Cache
variable {σ : StoreBounds → Type} [EntryStore σ]

def new (settings : CacheSettings) : Cache σ := ⟨settings, EntryStore.build settings.bounds⟩

/-- Whether an entry of this cost is refused: above the item limit, or beyond an unsigned 32-bit
word. -/
def refuses (settings : CacheSettings) (cost : Nat) : Bool :=
  (0 < settings.itemLimit && settings.itemLimit < cost) || Text.word32 ≤ cost

/-- What an entry with this text costs. -/
def costOf (text : String) : Nat := text.utf8ByteSize + entryOverhead

/-- Applies the evictions and expirations that are due. -/
def expire (c : Cache σ) (now : Nat) : Cache σ :=
  { c with store := EntryStore.settle c.store now }

def insertText (c : Cache σ) (now : Nat) (key : ResourceId) (text : String) : Cache σ :=
  { c with store := EntryStore.insert c.store now key ⟨text, costOf text⟩ }

/-- Stores a text under a key; answers whether it was accepted. With a budget, what the entry
drives out is gone before the answer. -/
def setText (c : Cache σ) (now : Nat) (key : ResourceId) (text : String) : Bool × Cache σ :=
  if refuses c.settings (costOf text) then (false, c)
  else
    let c := c.insertText now key text
    (true, if 0 < c.settings.budget then c.expire now else c)

/-- Stores a value under a key; answers whether it was accepted. -/
def set (c : Cache σ) (now : Nat) (key : ResourceId) (value : Json) : Bool × Cache σ :=
  c.setText now key value.compact

/-- The text under a key, and the cache after that. -/
def getText (c : Cache σ) (now : Nat) (key : ResourceId) : Option String × Cache σ :=
  let (entry, store) := EntryStore.get c.store now key
  (entry.map CacheEntry.text, { c with store })

/-- The value under a key, if there is one and the reader accepts all of its text. -/
def get {α : Type} (c : Cache σ) (now : Nat) (r : Nat → Json.Reader α) (key : ResourceId) :
    Option α × Cache σ :=
  let (text, c) := c.getText now key
  (text.bind fun s => (Json.whole (r Json.depthLimit) s).toOption, c)

def delete (c : Cache σ) (key : ResourceId) : Cache σ :=
  { c with store := EntryStore.invalidate c.store key }

/-- How much is in the cache, by the figures of its store. -/
def stats (c : Cache σ) : CacheUsage := ⟨EntryStore.count c.store, EntryStore.weight c.store⟩

end Cache

/-- The part of a cache that holds the values of one kind. -/
structure CacheSection (σ : StoreBounds → Type := Shelf) where
  cache : Cache σ
  kind : String

namespace CacheSection
variable {σ : StoreBounds → Type} [EntryStore σ]

/-- The key of a name in this part. -/
def key (k : CacheSection σ) (ns name : String) : ResourceId := ⟨k.kind, ns, name⟩

def set (k : CacheSection σ) (now : Nat) (ns name : String) (value : Json) :
    Bool × CacheSection σ :=
  let (ok, cache) := k.cache.set now (k.key ns name) value
  (ok, { k with cache })

def get {α : Type} (k : CacheSection σ) (now : Nat) (r : Nat → Json.Reader α)
    (ns name : String) : Option α × CacheSection σ :=
  let (x, cache) := k.cache.get now r (k.key ns name)
  (x, { k with cache })

def delete (k : CacheSection σ) (ns name : String) : CacheSection σ :=
  { k with cache := k.cache.delete (k.key ns name) }

end CacheSection

end SharedWatch
