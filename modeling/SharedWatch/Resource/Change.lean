import SharedWatch.Resource.Record

/-!
Changes observed on a watch.
-/

namespace SharedWatch

/-- What happened. -/
inductive ChangeKind where
  | added
  | modified
  | deleted
  /-- Every change up to the carried version has been sent. -/
  | bookmark
  | error
  deriving DecidableEq, Repr

/-- The kind's name on a watch stream. -/
def ChangeKind.display : ChangeKind → String
  | .added => "ADDED"
  | .modified => "MODIFIED"
  | .deleted => "DELETED"
  | .bookmark => "BOOKMARK"
  | .error => "ERROR"

/-- One change observed on a watch. -/
structure Change where
  kind : ChangeKind
  object : Record
  version : String
  /-- The server's words, for errors. -/
  message : Option String
  deriving DecidableEq

namespace Change

/-- An event at the version of its object. -/
def ofRecord (kind : ChangeKind) (object : Record) : Change :=
  { kind, object, version := object.version, message := none }

/-- An event at a version of its own. -/
def atVersion (kind : ChangeKind) (object : Record) (version : String) : Change :=
  { kind, object, version, message := none }

def bookmark (version : String) : Change :=
  { kind := .bookmark, object := { Record.empty with version }, version, message := none }

def error (message : String) : Change :=
  { kind := .error, object := .empty, version := "", message := some message }

def retyped (e : Change) (kind : ChangeKind) : Change := { e with kind }

end Change

end SharedWatch
