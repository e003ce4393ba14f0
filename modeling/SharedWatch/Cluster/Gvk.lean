import SharedWatch.Text.Split

/-!
Kinds of resources by group, version and kind, and the keys that name them.

A key is `version/kind` for the core group, whose name is empty, or `group/version/kind`.
-/

namespace SharedWatch

/-- A kind of resources. The core group's name is empty. -/
structure Gvk where
  group : String
  version : String
  kind : String
  deriving DecidableEq, Repr

namespace Gvk

/-- Reads a key. Version and kind must not be empty. -/
def parse? (key : String) : Option Gvk :=
  match Text.parts '/' key with
  | [version, kind] => if version = "" ∨ kind = "" then none else some ⟨"", version, kind⟩
  | [group, version, kind] =>
    if version = "" ∨ kind = "" then none else some ⟨group, version, kind⟩
  | _ => none

/-- What is said of a text that is no key. -/
def invalidKey (key : String) : String :=
  "invalid gvk key: " ++ key ++ " (expect v1/Kind or group/v1/Kind)"

/-- What is said of a kind that the server does not know. -/
def notFound (g : Gvk) : String :=
  "GVK not found: " ++ g.group ++ "/" ++ g.version ++ "/" ++ g.kind

end Gvk

end SharedWatch
