/-!
The grammar of command lines.

A level knows its options, how many plain arguments it takes, and the commands that may follow; a
command has a level of its own for the arguments after it. The value of an option is looked at late:
when the next option or plain argument is met, or at the end. Until then another mistake wins.
-/

namespace SharedWatch.CommandLine

/-- Why arguments cannot be acted on. -/
inductive UsageError where
  | missingArgument
  | unknownArgument
  /-- An option without its value, or with one that is not among those it takes. -/
  | invalidValue
  /-- A value that does not follow the option's own rule. -/
  | refusedValue
  | unknownCommand
  /-- An option that may stand once stands twice. -/
  | repeated
  /-- A value given to an option that takes none. -/
  | unwantedValue
  | missingCommand
  | help
  | version
  | nothing
  deriving DecidableEq, Repr

/-- What an option does. -/
inductive OptionRole where
  | flag
  | help
  | version
  /-- Takes a value, and may stand once. -/
  | single
  /-- Takes a value each time it stands. -/
  | repeatable
  deriving DecidableEq, Repr

structure OptionRule where
  /-- The name after two dashes. -/
  name : String
  /-- The letter after one dash. -/
  letter : Option Char
  role : OptionRole
  /-- What is wrong with a value. -/
  fault : String → Option UsageError

def OptionRule.takesValue (o : OptionRule) : Bool := o.role = .single || o.role = .repeatable

/-- The arguments that are understood at one place. -/
structure Level where
  options : List OptionRule
  /-- How many plain arguments there must be. -/
  arity : Nat
  commands : List String

/-- What was understood so far. -/
structure Given where
  /-- Options with their values, in order. -/
  values : List (String × String)
  plain : List String
  /-- An option whose value is not there yet, or not looked at. -/
  pending : Option (OptionRule × Option String)

namespace Given

def none : Given := ⟨[], [], .none⟩

def all (g : Given) (name : String) : List String :=
  (g.values.filter fun v => v.1 == name).map (·.2)

/-- The value of an option that may stand once. -/
def value? (g : Given) (name : String) : Option String := (g.all name).head?

def has (g : Given) (name : String) : Bool := g.values.any fun v => v.1 == name

/-- Whether the next argument may be the value of an option. -/
def awaitsValue (g : Given) : Bool :=
  match g.pending with
  | some (_, .none) => true
  | _ => false

/-- Takes an option with its value. -/
def accept (g : Given) (o : OptionRule) (value : String) : Except UsageError Given :=
  if o.role ≠ .repeatable ∧ g.has o.name then .error .repeated
  else
    match o.fault value with
    | some e => .error e
    | .none => .ok { g with values := g.values ++ [(o.name, value)] }

/-- Looks at the value of the pending option. -/
def settle (g : Given) : Except UsageError Given :=
  match g.pending with
  | .none => .ok g
  | some (_, .none) => .error .invalidValue
  | some (o, some value) => { g with pending := .none }.accept o value

/-- Takes an option that stands without a value. -/
def occur (g : Given) (o : OptionRule) : Except UsageError Given := do
  let g ← g.settle
  match o.role with
  | .help => .error .help
  | .version => .error .version
  | .flag => g.accept o "true"
  | .single => .ok { g with pending := some (o, .none) }
  | .repeatable => .ok { g with pending := some (o, .none) }

/-- Takes an option with a value in the same argument. -/
def occurWith (g : Given) (o : OptionRule) (value : String) : Except UsageError Given := do
  if o.takesValue then (← g.settle).accept o value else .error .unwantedValue

end Given

namespace Level

/-- Takes an argument that begins with two dashes. -/
def long (l : Level) (g : Given) (cs : List Char) : Except UsageError Given :=
  let name := String.ofList (cs.takeWhile (· != '='))
  match l.options.find? fun o => o.name == name with
  | none => .error .unknownArgument
  | some o =>
    match cs.dropWhile (· != '=') with
    | [] => g.occur o
    | _ :: value => g.occurWith o (String.ofList value)

/-- Takes the letters after one dash. What follows the letter of an option with a value is the
value, an equals sign between them not counted. -/
def letters (l : Level) (g : Given) : List Char → Except UsageError Given
  | [] => .ok g
  | c :: rest =>
    match l.options.find? fun o => o.letter == some c with
    | none => .error .unknownArgument
    | some o =>
      if o.takesValue then
        match rest with
        | [] => g.occur o
        | '=' :: value => g.occurWith o (String.ofList value)
        | value => g.occurWith o (String.ofList value)
      else
        match g.occur o with
        | .error e => .error e
        | .ok g => l.letters g rest

/-- Takes a plain argument; `literal` says that it stands after two bare dashes. -/
def plain (l : Level) (literal : Bool) (g : Given) (a : String) : Except UsageError Given :=
  if g.plain.length < l.arity then do
    let g ← g.settle
    return { g with plain := g.plain ++ [a] }
  else if l.commands.isEmpty ∨ (literal ∧ l.commands.contains a) then .error .unknownArgument
  else .error .unknownCommand

/-- Takes arguments up to a command: what was given, and the command with what follows it. -/
def scan (l : Level) : (literal : Bool) → Given → List String →
    Except UsageError (Given × Option (String × List String))
  | _, g, [] => .ok (g, none)
  | true, g, a :: rest =>
    match l.plain true g a with
    | .error e => .error e
    | .ok g => l.scan true g rest
  | false, g, a :: rest =>
    if !g.awaitsValue && l.commands.contains a then .ok (g, some (a, rest))
    else if a = "--" then l.scan true g rest
    else
      let next : Except UsageError Given := match a.toList with
        | '-' :: '-' :: cs => l.long g cs
        | '-' :: c :: cs => l.letters g (c :: cs)
        | _ =>
          match g.pending with
          | some (o, none) => .ok { g with pending := some (o, some a) }
          | _ => l.plain false g a
      match next with
      | .error e => .error e
      | .ok g => l.scan false g rest

/-- Takes all arguments of a command. -/
def read (l : Level) (args : List String) : Except UsageError Given := do
  let (g, _) ← l.scan false .none args
  let g ← g.settle
  if g.plain.length < l.arity then .error .missingArgument else .ok g

end Level

end SharedWatch.CommandLine
