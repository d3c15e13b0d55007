import QueryFilter.Cli.Run

set_option relaxedAutoImplicit false
set_option autoImplicit false

/-!
# The command line program

Reads the files and variables that a call asks for, and prints its outcome.
-/

namespace QueryFilter.Cli

/-- The contents of a file, if it can be read. -/
def contents? (path : String) : IO (Option ByteArray) := do
  try
    return some (← IO.FS.readBinFile path)
  catch _ =>
    return none

/-- The files and variables that a call may look at. -/
def World.ofArguments (arguments : List String) : IO World := do
  let files ← (requestedFiles arguments).mapM fun path => do return (path, ← contents? path)
  let rows ← IO.getEnv Settings.rowsVariable
  let first ← IO.getEnv Settings.firstVariable
  let environment (name : String) :=
    if name = Settings.rowsVariable then rows
    else if name = Settings.firstVariable then first
    else none
  return ⟨fun path => (files.lookup path).join, environment⟩

/-- What failures say beyond what this library knows: texts are quoted as in JSON, and no place in a
text is given. -/
def plainWording : Wording where
  quote text := (Json.Value.string text).compact
  syntaxError _ _ := "not a JSON document"
  place _ _ := (0, 0)
  missingFile := "cannot be opened"

end QueryFilter.Cli

open QueryFilter.Cli in
/-- Runs a call, prints what it prints and ends as it ends. -/
def main (arguments : List String) : IO UInt32 := do
  let outcome := run (← World.ofArguments arguments) arguments
  match outcome with
  | .success output => IO.print output
  | .failure failure => IO.eprintln (failure.message plainWording)
  | .misuse => IO.eprintln helpText
  return outcome.exitCode
