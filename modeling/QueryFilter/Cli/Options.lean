set_option relaxedAutoImplicit false
set_option autoImplicit false

/-!
# Options of a command line

Reading options off a list of arguments up to the first word that is none. An option stands as
`--name value` or `--name=value`, a switch as `--name`; each is given at most once. A value that
stands by itself does not start with a dash, unless it is a single one.

## Main definitions

* `QueryFilter.Cli.Argument` — the forms of an argument.
* `QueryFilter.Cli.OptionSpec` — an option that is known.
* `QueryFilter.Cli.readOptions` — the options at the start of a list of arguments.
-/

namespace QueryFilter.Cli

/-- The forms of an argument. -/
inductive Argument where
  /-- Two dashes, which end the options. -/
  | endOfOptions
  /-- A long option, and the value after an equals sign. -/
  | long (name : String) (value : Option String)
  /-- Short options, one character each. -/
  | short (names : List Char)
  /-- Anything else; a single dash is a word. -/
  | word (text : String)
  deriving DecidableEq, Repr

/-- The form of an argument. -/
def Argument.ofString (text : String) : Argument :=
  match text.toList with
  | ['-', '-'] => endOfOptions
  | '-' :: '-' :: rest =>
    let name := String.ofList (rest.takeWhile (· != '='))
    match rest.dropWhile (· != '=') with
    | [] => long name none
    | _ :: value => long name (some (String.ofList value))
  | '-' :: c :: rest => short (c :: rest)
  | _ => word text

/-- Whether an argument is a word, and so can be the value of an option. -/
def isWord (text : String) : Bool :=
  match Argument.ofString text with
  | .word _ => true
  | _ => false

/-- An option that is known: its name, and whether it takes a value. -/
structure OptionSpec where
  name : String
  takesValue : Bool
  deriving DecidableEq, Repr

/-- The names of the options that were given, with their values; that of a switch is empty. -/
abbrev Given := List (String × String)

/-- What is found at the start of a list of arguments. -/
inductive Reading where
  /-- Options up to the end. -/
  | finished (given : Given)
  /-- Options up to a word. -/
  | word (given : Given) (text : String) (rest : List String)
  /-- The version is asked for. -/
  | version
  /-- Help is asked for. -/
  | help
  /-- The arguments are wrong. -/
  | invalid
  deriving DecidableEq, Repr

/-- Adds an option, unless it was given before. -/
def Given.add? (given : Given) (name value : String) : Option Given :=
  if (given.lookup name).isSome then none else some ((name, value) :: given)

/-- The options at the start of a list of arguments, read in order until something is wrong or asked
for. The version can be asked for only where that is allowed, help everywhere. -/
def readOptions (specs : List OptionSpec) (allowVersion : Bool) (given : Given) :
    List String → Reading
  | [] => .finished given
  | argument :: rest =>
    match Argument.ofString argument with
    | .endOfOptions => if rest.isEmpty then .finished given else .invalid
    | .word text => .word given text rest
    | .short names =>
      if names.head? = some 'h' then .help
      else if names.head? = some 'V' ∧ allowVersion then .version
      else .invalid
    | .long name value =>
      match specs.find? fun spec => spec.name == name, value with
      | some ⟨_, true⟩, some value =>
        match given.add? name value with
        | some given => readOptions specs allowVersion given rest
        | none => .invalid
      | some ⟨_, true⟩, none =>
        match rest with
        | [] => .invalid
        | value :: rest =>
          if isWord value then
            match given.add? name value with
            | some given => readOptions specs allowVersion given rest
            | none => .invalid
          else
            .invalid
      | some ⟨_, false⟩, none =>
        match given.add? name "" with
        | some given => readOptions specs allowVersion given rest
        | none => .invalid
      | none, none =>
        if name = "help" then .help
        else if name = "version" ∧ allowVersion then .version
        else .invalid
      | _, some _ => .invalid

end QueryFilter.Cli
