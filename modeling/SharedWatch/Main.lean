import SharedWatch.CommandLine.Session

/-!
The program. It is built without a transport, so its server cannot be reached; time passes without
waiting, and a mirror is interrupted after an hour of it.
-/

namespace SharedWatch.CommandLine

/-- The variables of the environment that are set. -/
def environment : IO Environment :=
  Environment.names.filterMapM fun name => do
    return (← IO.getEnv name).map fun value => (name, value)

def hour : Nat := 3600 * 1000000000

end SharedWatch.CommandLine

open SharedWatch SharedWatch.CommandLine

/-- Runs the program with its arguments. -/
def main (args : List String) : IO UInt32 := do
  let session := Session.ofArguments args (← environment) (some Unreachable.mk) hour
  session.printed.forM IO.println
  session.complaint.forM IO.eprintln
  return UInt32.ofNat session.exitCode
