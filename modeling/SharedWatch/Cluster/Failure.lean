import SharedWatch.Json.Shape
import SharedWatch.Cluster.Address
import SharedWatch.Text.Quoted

/-!
What can go wrong between here and a cluster.
-/

namespace SharedWatch

open Json (FieldReader Reader)

/-- A failure in the server's words. -/
structure Refusal where
  status : String
  message : String
  reason : String
  code : Nat
  deriving DecidableEq, Repr

namespace Refusal

structure Draft where
  status : Option String
  message : Option String
  reason : Option String
  code : Option Nat

/-- The fields of a refusal; message and reason may be missing. -/
def fields : List (FieldReader Draft) :=
  [ .of "status" (·.status) (fun d x => { d with status := some x }) fun _ => Json.textValue,
    { FieldReader.of "message" (·.message) (fun d x => { d with message := some x })
        fun _ => Json.textValue with spare := true },
    { FieldReader.of "reason" (·.reason) (fun d x => { d with reason := some x })
        fun _ => Json.textValue with spare := true },
    .of "code" (·.code) (fun d x => { d with code := some x })
      fun _ => Json.mapReader Int.toNat (Json.intValue 0 65535) ]

def Draft.finish (d : Draft) : Option Refusal :=
  return ⟨← d.status, d.message.getD "", d.reason.getD "", ← d.code⟩

def reader : Nat → Reader Refusal :=
  Json.recordValue fields ⟨none, none, none, none⟩ Draft.finish

/-- The refusal that a text is, if it is one. -/
def ofText? (s : String) : Option Refusal := (Json.whole (reader Json.depthLimit) s).toOption

/-- The refusal that a failed request was answered with; a body that is none is quoted. -/
def ofResponse (r : Response) : Refusal :=
  (ofText? r.body).getD
    ⟨toString r.status, Text.quoted r.body, "Failed to parse error data", r.status⟩

end Refusal

/-- Why an exchange with a cluster failed. -/
inductive Cause where
  | refused (r : Refusal)
  /-- The answer is not what was asked for. -/
  | unreadable
  | unreachable
  /-- The request cannot be made. -/
  | unsendable
  /-- The cluster lists a group of kinds without versions. -/
  | noVersions
  | other
  deriving DecidableEq, Repr

/-- A failure of a request to a cluster. -/
inductive ClusterFailure where
  /-- The request makes no sense to this cluster. -/
  | invalid (message : String)
  /-- An exchange failed; what it was for. -/
  | exchange (purpose : String) (cause : Cause)
  deriving DecidableEq, Repr

/-- The failure in words: of a failed exchange, what it was for. -/
def ClusterFailure.message : ClusterFailure → String
  | .invalid message => message
  | .exchange purpose _ => purpose

/-- What discovery is for. -/
def ClusterFailure.discovery (cause : Cause) : ClusterFailure :=
  .exchange "running API discovery" cause

end SharedWatch
