import SharedWatch.CommandLine.Invocation
import SharedWatch.Store.Cache
import SharedWatch.Wire.Change

/-!
What the commands print.
-/

namespace SharedWatch.CommandLine

/-- The sign that a change is printed with. -/
def sign : ChangeKind → String
  | .added => "+"
  | .modified => "~"
  | .deleted => "-"
  | .bookmark => "#"
  | .error => "!"

/-- A change in one line for a reader: its sign, its resource and its version. -/
def humanChange (e : Change) : String :=
  let detail := match e.kind with
    | .bookmark => "bookmark rv=" ++ e.version
    | .error => e.message.getD "upstream error"
    | _ =>
      let ns := if e.object.ns = "" then "" else e.object.ns ++ "/"
      ns ++ e.object.name ++ " rv=" ++ e.version
  sign e.kind ++ " " ++ detail

namespace Output

def change : Output → Change → String
  | .human, e => humanChange e
  | .json, e => e.toJson.compact

/-- How much the cache holds of a kind. -/
def usage : Output → String → CacheUsage → String
  | .human, gvk, s =>
    gvk ++ ": " ++ toString s.entries ++ " entries, " ++ toString s.bytes ++ " bytes"
  | .json, gvk, s =>
    (Json.object [("bytes", .int s.bytes), ("entries", .int s.entries), ("gvk", .text gvk)]).compact

/-- An object that was read: itself, or all that is known of it. -/
def object : Output → Read → String
  | .human, r => r.record.raw.pretty
  | .json, r => r.toJson.pretty

end Output

end SharedWatch.CommandLine
