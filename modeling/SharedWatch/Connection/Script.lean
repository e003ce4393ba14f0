import SharedWatch.Connection.Request
import SharedWatch.Resource.Record

/-!
A server that answers from a script.

Each request takes the next scripted answer, or waits for one: a session, which is fed from outside,
or a refusal. Single reads are answered from given objects.
-/

namespace SharedWatch

structure ScriptedSession where
  /-- What was sent and not yet read. -/
  items : List StreamItem
  /-- Whether nothing more will be sent. -/
  closed : Bool
  /-- Whether the reader has let go of it. -/
  released : Bool
  deriving DecidableEq

structure Script where
  /-- The answers to the next requests: the numbers of sessions and reasons of refusals. -/
  answers : List (Except String Nat)
  sessions : List ScriptedSession
  objects : List (ResourceId × Record)
  /-- Why single reads fail, if they do. -/
  outage : Option String

namespace Script

def empty : Script := ⟨[], [], [], none⟩

/-- Scripts a session; it answers with its number. -/
def addSession (s : Script) : Nat × Script :=
  let n := s.sessions.length
  (n, { s with answers := s.answers ++ [.ok n], sessions := s.sessions ++ [⟨[], false, false⟩] })

/-- Scripts a refusal. -/
def addRefusal (s : Script) (reason : String) : Script :=
  { s with answers := s.answers ++ [.error reason] }

def change (s : Script) (n : Nat) (f : ScriptedSession → ScriptedSession) : Script :=
  { s with sessions := s.sessions.modify n f }

def send (s : Script) (n : Nat) (items : List StreamItem) : Script :=
  s.change n fun x => { x with items := x.items ++ items }

/-- Ends a session after what was sent on it. -/
def close (s : Script) (n : Nat) : Script := s.change n fun x => { x with closed := true }

def put (s : Script) (key : ResourceId) (r : Record) : Script :=
  { s with objects := (key, r) :: s.objects.filter fun x => x.1 != key }

/-- Takes the next scripted answer. -/
def openStream? (s : Script) : Option (Except String Nat × Script) :=
  match s.answers with
  | [] => none
  | x :: rest => some (x, { s with answers := rest })

def next? (s : Script) (n : Nat) : Option (StreamItem × Script) :=
  match s.sessions[n]? with
  | none => none
  | some x =>
    match x.items with
    | item :: rest => some (item, s.change n fun x => { x with items := rest })
    | [] => if x.closed then some (.ended, s) else none

def release (s : Script) (n : Nat) : Script := s.change n fun x => { x with released := true }

def fetch (s : Script) (key : ResourceId) : Except String (Option Record) :=
  match s.outage with
  | some reason => .error reason
  | none => .ok ((s.objects.find? fun x => x.1 == key).map (·.2))

instance : WatchServer Script where
  openStream? s _ _ := s.openStream?
  next? := next?
  release := release
  fetch s key := (s.fetch key, s)

end Script

end SharedWatch
