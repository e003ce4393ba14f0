import SharedWatch.CommandLine.Grammar
import SharedWatch.Resource.Filter

/-!
The commands of the program.

`watch` prints changes, `mirror` keeps a cache until it is interrupted, `get` reads one object.
The form of the output and the namespace may be given before the command or after it; after it
counts.
-/

namespace SharedWatch.CommandLine

/-- The form of the output. -/
inductive Output where
  | human
  | json
  deriving DecidableEq, Repr

inductive Command where
  | watch (gvk : String) (filter : Filter) (direct : Bool)
  | mirror (gvk : String)
  | get (gvk : String) (name : String)
  deriving DecidableEq, Repr

/-- A command with what holds for every command. -/
structure Invocation where
  output : Output
  ns : Option String
  command : Command
  deriving DecidableEq, Repr

namespace Output

/-- The form of a name. -/
def ofName? (name : String) : Option Output :=
  if name = "human" then some .human else if name = "json" then some .json else none

end Output

namespace Invocation

/-- No value has a fault. -/
def anyValue (_ : String) : Option UsageError := none

def outputFault (value : String) : Option UsageError :=
  if (Output.ofName? value).isSome then none else some .invalidValue

def selectorFault (value : String) : Option UsageError :=
  match Selector.parse value with
  | .ok _ => none
  | .error _ => some .refusedValue

/-- The options that may stand before the command and after it. -/
def shared : List OptionRule :=
  [⟨"output", some 'o', .single, outputFault⟩, ⟨"ns", none, .single, anyValue⟩,
    ⟨"help", some 'h', .help, anyValue⟩]

def names : List String := ["watch", "mirror", "get", "help"]

/-- What may stand before the command. -/
def top : Level :=
  ⟨shared ++ [⟨"version", some 'V', .version, anyValue⟩], 0, names⟩

def watchLevel : Level :=
  ⟨shared ++ [⟨"label", some 'l', .repeatable, selectorFault⟩,
    ⟨"annotation", some 'a', .repeatable, selectorFault⟩, ⟨"bookmarks", none, .flag, anyValue⟩,
    ⟨"direct", none, .flag, anyValue⟩], 1, []⟩

/-- The selectors that an option was given with. -/
def selectors (g : Given) (name : String) : List Selector :=
  (g.all name).filterMap fun s => (Selector.parse s).toOption

/-- The filter that the options of `watch` ask for. -/
def filterOf (g : Given) : Filter :=
  ⟨selectors g "label", selectors g "annotation", g.has "bookmarks"⟩

/-- Reads the arguments after a command: the command and the options that were given. -/
def readCommand (name : String) (args : List String) : Except UsageError (Command × Given) := do
  if name = "watch" then
    let g ← watchLevel.read args
    return (.watch (g.plain.headD "") (filterOf g) (g.has "direct"), g)
  else if name = "mirror" then
    let g ← Level.read ⟨shared, 1, []⟩ args
    return (.mirror (g.plain.headD ""), g)
  else
    let g ← Level.read ⟨shared, 2, []⟩ args
    return (.get (g.plain.headD "") ((g.plain.drop 1).headD ""), g)

/-- What is answered to `help` with the names of commands. -/
def helpOn : List String → UsageError
  | [] => .help
  | [name] => if names.contains name then .help else .unknownCommand
  | _ => .unknownCommand

/-- Reads a command line without the program's name. -/
def parse (args : List String) : Except UsageError Invocation := do
  let (before, rest) ← top.scan false .none args
  match rest with
  | none => if (← before.settle).values.isEmpty then .error .nothing else .error .missingCommand
  | some (name, args) =>
    if name = "help" then .error (helpOn args)
    else
      let (command, after) ← readCommand name args
      let before ← before.settle
      let value? (name : String) : Option String := (after.value? name).or (before.value? name)
      return ⟨((value? "output").bind Output.ofName?).getD .human, value? "ns", command⟩

end Invocation

end SharedWatch.CommandLine
