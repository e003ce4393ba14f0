import SharedWatch.Text.Quoted

/-!
What callers are told when a request cannot be met.

A `WatchFailure` arises in the watch layer; a `ServiceFailure` is what a caller of the whole
service sees, with the words of the watch layer inside.
-/

namespace SharedWatch

/-- A failure of the watch layer. -/
inductive WatchFailure where
  /-- The filter cannot be sent to a server or read from a command line. -/
  | unsupportedFilter (detail : String)
  | invalidTarget (detail : String)
  /-- The server failed for good; the detail is its message. -/
  | server (detail : String)
  deriving DecidableEq, Repr

namespace WatchFailure

def message : WatchFailure → String
  | .unsupportedFilter s => "unsupported filter: " ++ s
  | .invalidTarget s => "invalid target: " ++ s
  | .server s => "upstream: " ++ s

/-- A selector without a key. -/
def emptyKey (selector : String) : WatchFailure :=
  .unsupportedFilter ("empty key in selector " ++ Text.quoted selector)

/-- A server cannot select by annotations. -/
def annotationSelectors (keys : List String) : WatchFailure :=
  .unsupportedFilter
    ("annotation selectors are not supported by the watch protocol: " ++ ",".intercalate keys)

/-- A target whose kind has no name. -/
def emptyGvk : WatchFailure := .invalidTarget "empty gvk"

end WatchFailure

/-- A failure of the whole service. -/
inductive ServiceFailure where
  | validation (detail : String)
  | notFound (detail : String)
  /-- The server could not be reached and the cache had nothing either. -/
  | unavailable (detail : String)
  | internal (detail : String)
  deriving DecidableEq, Repr

namespace ServiceFailure

def message : ServiceFailure → String
  | .validation s => "validation: " ++ s
  | .notFound s => "not_found: " ++ s
  | .unavailable s => "unavailable: " ++ s
  | .internal s => "internal: " ++ s

/-- A target whose kind has no name. -/
def emptyGvk : ServiceFailure := .validation "empty gvk"

/-- What a failure of the watch layer is to a caller of the service: a request that cannot be met is
invalid, a server that failed is unavailable. -/
def ofWatch : WatchFailure → ServiceFailure
  | e@(.unsupportedFilter _) => .validation e.message
  | e@(.invalidTarget _) => .validation e.message
  | e@(.server _) => .unavailable e.message

end ServiceFailure

end SharedWatch
