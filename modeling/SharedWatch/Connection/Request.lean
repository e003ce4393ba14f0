import SharedWatch.Resource.Change
import SharedWatch.Resource.Target

/-!
What passes between a connection and a server, and between a connection and its reader.
-/

namespace SharedWatch

structure OpenRequest where
  /-- The labels to select by, in the server's notation. -/
  labelSelector : Option String
  /-- Whether the server may send bookmarks. -/
  bookmarks : Bool
  /-- The version to go on from; without one the server replays its state as additions. -/
  resume : Option String
  /-- After how many seconds the server closes the stream. -/
  timeout : Option Nat
  deriving DecidableEq, Repr

/-- What a stream from the server yields next. -/
inductive StreamItem where
  | event (e : Change)
  /-- The transport failed. -/
  | broken (reason : String)
  | ended
  deriving DecidableEq

/-- What a connection tells its reader. -/
inductive Notice where
  /-- A session has begun; whether it goes on from an earlier one. -/
  | opened (resumed : Bool)
  | event (e : Change)
  deriving DecidableEq

/-- A server that resources are watched on. Every operation answers with the server after it; what
is not ready yet has no answer. -/
class WatchServer (σ : Type) where
  /-- Answers a request with the number of a stream or the reason of a refusal. -/
  openStream? : σ → Target → OpenRequest → Option (Except String Nat × σ)
  /-- The next item of a stream. -/
  next? : σ → Nat → Option (StreamItem × σ)
  release : σ → Nat → σ
  /-- Reads one resource, nothing when it does not exist. -/
  fetch : σ → ResourceId → Except String (Option Record) × σ

end SharedWatch
