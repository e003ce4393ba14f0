import SharedWatch.Cluster.Client
import SharedWatch.CommandLine.Report

/-!
A whole run of the program: from its arguments to what it leaves behind.

The exit code is 0 after success, 1 after a failure, and 2 when the arguments cannot be acted on,
in which case no server is asked. Help and version that were asked for are a success.
-/

namespace SharedWatch.CommandLine

namespace UsageError

/-- What is wrong with the arguments. -/
def message : UsageError → String
  | .missingArgument => "a required argument is missing"
  | .unknownArgument => "an argument is not known here"
  | .invalidValue => "an option lacks its value or has one that it does not take"
  | .refusedValue => "a selector has no key"
  | .unknownCommand => "there is no such command"
  | .repeated => "an option was given twice"
  | .unwantedValue => "an option was given a value that it does not take"
  | .missingCommand => "a command is missing"
  | .help => "help was asked for"
  | .version => "the version was asked for"
  | .nothing => "nothing was asked for"

end UsageError

/-- What a run leaves behind. -/
structure Session where
  exitCode : Nat
  /-- The texts on the standard output, one after the other. -/
  printed : List String
  /-- The text on the standard error output. -/
  complaint : Option String
  deriving DecidableEq, Repr

namespace Session

def versionText : String := "tetherctl 0.0.0"

def usageText : String :=
  "usage: tetherctl [-o human|json] [--ns NS] COMMAND\n" ++
  "  watch GVK [-l SELECTOR] [-a SELECTOR] [--bookmarks] [--direct]\n" ++
  "  mirror GVK\n" ++
  "  get GVK NAME"

/-- A run that failed. -/
def failed (printed : List String) (reason : String) : Session :=
  ⟨1, printed, some ("Error: " ++ reason)⟩

/-- A run with arguments that name no command. -/
def ofUsage : UsageError → Session
  | .help => ⟨0, [usageText], none⟩
  | .version => ⟨0, [versionText], none⟩
  | .nothing => ⟨2, [], some usageText⟩
  | e => ⟨2, [], some ("error: " ++ e.message ++ "\n" ++ usageText)⟩

/-- A run whose command was carried out. -/
def ofReport (r : Report) : Session :=
  match r.failure with
  | none => ⟨0, r.printed, none⟩
  | some reason => failed r.printed reason

/-- Runs the program: arguments, environment, the server that is configured if its configuration
can be read, and after how many nanoseconds a mirror is interrupted. -/
def ofArguments {σ : Type} [HttpServer σ] (args : List String) (env : Environment)
    (server : Option σ) (span : Nat) : Session :=
  match Invocation.parse args with
  | .error e => ofUsage e
  | .ok asked =>
    match server with
    | none => failed [] "connecting to the cluster"
    | some server =>
      ofReport (.ofInvocation (Hub.ofEnvironment (Cluster.new server) env) asked span)

end Session

end SharedWatch.CommandLine
