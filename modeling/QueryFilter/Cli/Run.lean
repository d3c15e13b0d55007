import QueryFilter.Cli.Command
import QueryFilter.Cli.Listing
import QueryFilter.Filter.Equivalence
import QueryFilter.Filter.Paging
import QueryFilter.SavedFilter

set_option relaxedAutoImplicit false
set_option autoImplicit false

/-!
# Running commands

What a call of `filterctl` prints and how it ends, as a function of its arguments, of the files that
it may read and of the environment. The arguments are looked at first, then the settings file, then
the environment, and the command comes last; the first of them that is wrong decides.

## Main definitions

* `QueryFilter.Cli.World` — the files and the environment.
* `QueryFilter.Cli.Outcome` — what is printed and how the call ends.
* `QueryFilter.Cli.run` — the outcome of a call.
-/

namespace QueryFilter.Cli

/-- The contents of files and the values of variables. -/
structure World where
  file : String → Option ByteArray
  environment : String → Option String

/-- Why a command fails. -/
inductive Failure where
  /-- The file of a saved filter cannot be opened or does not hold text. -/
  | unreadable (fault : FileFault)
  /-- The data of a filter or the settings are wrong. -/
  | filter (error : Error)
  deriving DecidableEq

/-- The wording of a failure, with what others supply of it. -/
def Failure.message (wording : Wording) : Failure → String
  | unreadable fault => "Failed to read input file: " ++ fault.text wording
  | filter error => "Filter error: " ++ error.message wording

/-- How a call ends. -/
inductive Outcome where
  | success (output : String)
  | failure (failure : Failure)
  | misuse
  deriving DecidableEq

namespace Outcome

/-- The exit code: zero for success, one for a failure, two for arguments that are not understood.
-/
def exitCode : Outcome → UInt32
  | success _ => 0
  | failure _ => 1
  | misuse => 2

/-- What is printed; nothing unless the call succeeds. -/
def output : Outcome → String
  | success output => output
  | failure _ | misuse => ""

end Outcome

/-- The text that is printed for the version. -/
def versionText : String := "filterctl 0.1.0\n"

/-- The text that is printed for help. -/
def helpText : String :=
  "Usage: filterctl [--config FILE] COMMAND [OPTIONS]\n\nCommands:\n"
    ++ String.join (commands.map fun spec => "  " ++ spec.name ++ "\n")

/-- The settings of a call: those of the file if one is named, with the overrides of the
environment. -/
def loadSettings (world : World) (config : Option String) : Except Error Settings := do
  let settings ←
    match config with
    | none => .ok .default
    | some path => Settings.ofFile (world.file path)
  settings.withOverrides
    ⟨world.environment Settings.rowsVariable, world.environment Settings.firstVariable⟩

/-- A text on a line of its own. -/
def line (text : String) : String :=
  text ++ "\n"

/-- A filter on a line of its own. -/
def filterLine (filter : Filter) : String :=
  line filter.toFilterString

/-- The filter that a file saves. -/
def readRecord (world : World) (path : String) : Except Failure Filter :=
  match fileText (world.file path) with
  | .error fault => .error (.unreadable fault)
  | .ok source => (Filter.ofJson source).mapError .filter

/-- What a command prints. -/
def perform (world : World) (settings : Settings) : Command → Except Failure String
  | .normalize filter => .ok (filterLine (.ofString filter))
  | .terms filter true => .ok (line (listing (.ofString filter)).pretty)
  | .terms filter false => .ok (table (.ofString filter))
  | .get filter keyword =>
    .ok (((Filter.ofString filter).getWith? settings keyword).elim "" fun value =>
      line value.display)
  | .set filter keyword value relation =>
    match Relation.parse relation with
    | .ok relation => .ok (filterLine ((Filter.ofString filter).set keyword (.text value) relation))
    | .error error => .error (.filter error)
  | .delete filter keyword => .ok (filterLine ((Filter.ofString filter).delete keyword))
  | .next filter => .ok (filterLine ((Filter.ofString filter).next settings))
  | .previous filter => .ok (filterLine ((Filter.ofString filter).previous settings))
  | .first filter => .ok (filterLine (Filter.ofString filter).firstPage)
  | .all filter => .ok (filterLine (Filter.ofString filter).allRows)
  | .simple filter => .ok (filterLine (Filter.ofString filter).simple)
  | .criteria filter => .ok (line (Filter.ofString filter).toCriteriaString)
  | .equals filter other =>
    .ok (line (if (Filter.ofString filter).equals (.ofString other) then "true" else "false"))
  | .fromRecord path => (readRecord world path).map filterLine

/-- What a command prints with the settings of the call. -/
def runCommand (world : World) (config : Option String) (command : Command) :
    Except Failure String := do
  let settings ← (loadSettings world config).mapError Failure.filter
  perform world settings command

/-- The outcome of a call. -/
def run (world : World) (arguments : List String) : Outcome :=
  match Request.ofArguments arguments with
  | .version => .success versionText
  | .help => .success helpText
  | .misuse => .misuse
  | .run config command =>
    match runCommand world config command with
    | .ok output => .success output
    | .error failure => .failure failure

/-- The files that a call may read. -/
def requestedFiles (arguments : List String) : List String :=
  match Request.ofArguments arguments with
  | .run config (.fromRecord path) => config.toList ++ [path]
  | .run config _ => config.toList
  | _ => []

end QueryFilter.Cli
