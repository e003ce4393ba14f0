import SharedWatch.Text.Numeral
import SharedWatch.Time.Span

/-!
Settings, read from environment variables.

A variable that is unset or holds no numeral in range leaves its default. Zero switches a bound of
the cache off; the queue capacity and the number of attempts are at least one.
-/

namespace SharedWatch

/-- Environment variables and their values. -/
abbrev Environment := List (String × String)

namespace Environment

/-- The variables that are looked at. -/
def names : List String :=
  ["TETHER_QUEUE_CAP", "TETHER_DELIVERY_TIMEOUT_MS", "TETHER_ERROR_BACKOFF_MS",
    "TETHER_BACKOFF_BASE_MS", "TETHER_BACKOFF_MAX_SECS", "TETHER_CONNECT_ATTEMPTS",
    "TETHER_WATCH_TIMEOUT_SECS", "TETHER_CACHE_ITEMS", "TETHER_CACHE_MAX_BYTES",
    "TETHER_CACHE_MAX_ITEM_BYTES", "TETHER_CACHE_TTL_SECS", "TETHER_ADAPTER_RETRY_MS"]

/-- The value of a variable. -/
def value? (env : Environment) (name : String) : Option String :=
  (List.find? (fun v => v.1 == name) env).map (·.2)

/-- The numeral below `bound` in a variable, or the default. -/
def numeral (env : Environment) (bound : Nat) (name : String) (default_ : Nat) : Nat :=
  ((env.value? name).bind (Text.numeral? bound)).getD default_

end Environment

/-- Settings of connections and of the fan-out to subscribers. -/
structure WatchSettings where
  /-- How many events a subscriber's queue and a connection's outbound queue hold. -/
  queueCapacity : Nat
  /-- How long one delivery may wait for room before the subscriber is dropped. -/
  deliveryTimeout : Span
  /-- The pause before a full resync after an error on the stream. -/
  errorPause : Span
  backoffBase : Span
  backoffMax : Span
  /-- How many failed attempts in a row end a connection. -/
  connectAttempts : Nat
  /-- After how many seconds the server closes a stream. -/
  serverTimeout : Nat
  deriving DecidableEq, Repr

/-- Settings of the cache; zero switches the bound off. -/
structure CacheSettings where
  /-- How many entries are expected. -/
  expectedItems : Nat
  /-- What all entries together may cost. -/
  budget : Nat
  /-- What one entry may cost. -/
  itemLimit : Nat
  /-- How long an entry is served. -/
  lifetime : Span
  deriving DecidableEq, Repr

/-- Settings of a cache adapter. -/
structure AdapterSettings where
  /-- The pause before subscribing again after the stream closed. -/
  retryPause : Span
  deriving DecidableEq, Repr

namespace WatchSettings

/-- The settings where nothing is set. -/
def standard : WatchSettings :=
  { queueCapacity := 1024
    deliveryTimeout := .ofMillis 1000
    errorPause := .ofMillis 1000
    backoffBase := .ofMillis 200
    backoffMax := .ofSecs 30
    connectAttempts := 5
    serverTimeout := 290 }

/-- The settings that the environment asks for. -/
def ofEnvironment (env : Environment) : WatchSettings :=
  { queueCapacity := max (env.numeral Text.word64 "TETHER_QUEUE_CAP" standard.queueCapacity) 1
    deliveryTimeout := .ofMillis (env.numeral Text.word64 "TETHER_DELIVERY_TIMEOUT_MS" 1000)
    errorPause := .ofMillis (env.numeral Text.word64 "TETHER_ERROR_BACKOFF_MS" 1000)
    backoffBase := .ofMillis (env.numeral Text.word64 "TETHER_BACKOFF_BASE_MS" 200)
    backoffMax := .ofSecs (env.numeral Text.word64 "TETHER_BACKOFF_MAX_SECS" 30)
    connectAttempts :=
      max (env.numeral Text.word32 "TETHER_CONNECT_ATTEMPTS" standard.connectAttempts) 1
    serverTimeout := env.numeral Text.word32 "TETHER_WATCH_TIMEOUT_SECS" standard.serverTimeout }

/-- How many events a queue holds; every queue holds one at least. -/
def capacity (c : WatchSettings) : Nat := max c.queueCapacity 1

end WatchSettings

namespace CacheSettings

def standard : CacheSettings :=
  { expectedItems := 10000
    budget := 64 * 1024 * 1024
    itemLimit := 1024 * 1024
    lifetime := .ofSecs 600 }

def ofEnvironment (env : Environment) : CacheSettings :=
  { expectedItems := env.numeral Text.word64 "TETHER_CACHE_ITEMS" standard.expectedItems
    budget := env.numeral Text.word64 "TETHER_CACHE_MAX_BYTES" standard.budget
    itemLimit := env.numeral Text.word64 "TETHER_CACHE_MAX_ITEM_BYTES" standard.itemLimit
    lifetime := .ofSecs (env.numeral Text.word64 "TETHER_CACHE_TTL_SECS" standard.lifetime.secs) }

end CacheSettings

namespace AdapterSettings

def standard : AdapterSettings := { retryPause := .ofMillis 5000 }

def ofEnvironment (env : Environment) : AdapterSettings :=
  { retryPause := .ofMillis (env.numeral Text.word64 "TETHER_ADAPTER_RETRY_MS" 5000) }

end AdapterSettings

end SharedWatch
