/-
The command line: reads the files and variables that a run may need, and writes what it gives.
-/

import WhereClause.CommandLine.Run

set_option autoImplicit false

namespace WhereClause.CommandLine

/-- Whether a variable is set to something but zero. -/
def isOn (name : String) : IO (Option Bool) := do
  let value ← IO.getEnv name
  pure (value.map (· != "0"))

/-- Whether colours are written: if they are forced, or if nothing speaks against them and the
output is a terminal. -/
def wantsColours : IO Bool := do
  let forced ← isOn "CLICOLOR_FORCE"
  let refused ← IO.getEnv "NO_COLOR"
  let allowed ← isOn "CLICOLOR"
  if forced = some true then pure true
  else if refused.isSome then pure false
  else
    let terminal ← (← IO.getStdout).isTty
    pure (allowed.getD true && terminal)

/-- The file with the settings of the user. -/
def userConfigPath : IO (Option String) := do
  let file := "/crud-filter/config.toml"
  match ← IO.getEnv "XDG_CONFIG_HOME" with
  | some directory => pure (some (directory ++ file))
  | none =>
      let home ← IO.getEnv "HOME"
      pure (home.map fun home => home ++ "/.config" ++ file)

/-- The contents of a file, if it can be read. -/
def contents (path : String) : IO (Option String) := do
  try
    let text ← IO.FS.readFile path
    pure (some text)
  catch _ => pure none

/-- The contents of the files with settings that arguments ask for. -/
def configContents (userConfig : Option String) (args : List String) :
    IO (List (String × String)) := do
  let config := match Arguments.read args with
    | .ok a => a.config
    | .error _ => none
  let mut found := []
  for path in configFiles userConfig config do
    match ← contents path with
    | some text => found := (path, text) :: found
    | none => pure ()
  pure found

end WhereClause.CommandLine

open WhereClause.CommandLine in
/-- Run the command line. -/
def main (args : List String) : IO UInt32 := do
  let userConfig ← userConfigPath
  let files ← configContents userConfig args
  let databaseUrl ← IO.getEnv "CRUD_FILTER_DATABASE_URL"
  let colored ← wantsColours
  let environment : Environment :=
    { file := fun path => List.lookup path files
      userConfig := userConfig
      databaseUrl := databaseUrl
      colored := colored }
  let outcome := run environment args
  IO.print outcome.output
  IO.eprint outcome.errors
  pure (UInt32.ofNat outcome.code)
