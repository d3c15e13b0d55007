import QueryFilter.Cli.Options

set_option relaxedAutoImplicit false
set_option autoImplicit false

/-!
# Commands

The commands of `filterctl` with their options, and how a list of arguments is read as one of them.
The settings file can be named before the command or among its options; the latter counts if both
are.

## Main definitions

* `QueryFilter.Cli.Command` — the commands.
* `QueryFilter.Cli.commands` — their names and options.
* `QueryFilter.Cli.Request.ofArguments` — what a list of arguments asks for.
-/

namespace QueryFilter.Cli

/-- A command with the texts of its options. -/
inductive Command where
  | normalize (filter : String)
  | terms (filter : String) (json : Bool)
  | get (filter keyword : String)
  | set (filter keyword value relation : String)
  | delete (filter keyword : String)
  | next (filter : String)
  | previous (filter : String)
  | first (filter : String)
  | all (filter : String)
  | simple (filter : String)
  | criteria (filter : String)
  | equals (filter other : String)
  | fromRecord (path : String)
  deriving DecidableEq, Repr

/-- The name of a command, its options, and the command that values of the options make. Options
that the command needs and does not get leave it without a command. -/
structure CommandSpec where
  name : String
  options : List OptionSpec
  build : (String → Option String) → Option Command

/-- An option with a value. -/
def valued (name : String) : OptionSpec :=
  ⟨name, true⟩

/-- A command that takes a filter and nothing else. -/
def ofFilter (name : String) (build : String → Command) : CommandSpec :=
  ⟨name, [valued "filter"], fun value => (value "filter").map build⟩

/-- A command that takes a filter and one more text. -/
def ofFilterAnd (name option : String) (build : String → String → Command) : CommandSpec :=
  ⟨name, [valued "filter", valued option], fun value => do
    return build (← value "filter") (← value option)⟩

/-- The commands. Setting a keyword means equality unless another relation is given. -/
def commands : List CommandSpec :=
  [ofFilter "normalize" .normalize,
    ⟨"terms", [valued "filter", ⟨"json", false⟩], fun value => do
      return .terms (← value "filter") (value "json").isSome⟩,
    ofFilterAnd "get" "keyword" .get,
    ⟨"set", [valued "filter", valued "keyword", valued "value", valued "relation"], fun value => do
      return .set (← value "filter") (← value "keyword") (← value "value")
        ((value "relation").getD "=")⟩,
    ofFilterAnd "delete" "keyword" .delete,
    ofFilter "next" .next,
    ofFilter "previous" .previous,
    ofFilter "first" .first,
    ofFilter "all" .all,
    ofFilter "simple" .simple,
    ofFilter "criteria" .criteria,
    ofFilterAnd "equals" "other" .equals,
    ⟨"from-record", [valued "path"], fun value => (value "path").map .fromRecord⟩]

/-- The option that names the settings file, which every command has. -/
def configOption : OptionSpec :=
  valued "config"

/-- What a list of arguments asks for. -/
inductive Request where
  /-- A command, with the settings file if one is named. -/
  | run (config : Option String) (command : Command)
  /-- The version. -/
  | version
  /-- Help. -/
  | help
  /-- Nothing that can be understood. -/
  | misuse
  deriving DecidableEq, Repr

namespace Request

/-- The request of a command whose options follow; a settings file may have been named before. -/
def ofOptions (spec : CommandSpec) (config : Option String) (arguments : List String) : Request :=
  match readOptions (configOption :: spec.options) false [] arguments with
  | .finished given =>
    match spec.build fun name => given.lookup name with
    | some command => .run ((given.lookup configOption.name).or config) command
    | none => .misuse
  | .help => .help
  | _ => .misuse

/-- The request for help on one command or on all. -/
def helpOn : List String → Request
  | [] => .help
  | [name] => if name = "help" ∨ commands.any (·.name == name) then .help else .misuse
  | _ => .misuse

/-- What a list of arguments asks for. -/
def ofArguments (arguments : List String) : Request :=
  match readOptions [configOption] true [] arguments with
  | .word given name rest =>
    match commands.find? fun spec => spec.name == name with
    | some spec => ofOptions spec (given.lookup configOption.name) rest
    | none => if name = "help" then helpOn rest else .misuse
  | .version => .version
  | .help => .help
  | _ => .misuse

end Request

end QueryFilter.Cli
