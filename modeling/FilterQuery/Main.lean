import FilterQuery.CommandLine.Arguments
import FilterQuery.CommandLine.Run

namespace FilterQuery

def fileError : IO.Error → CommandLine.FileError
  | .noFileOrDirectory .. => .missing
  | .inappropriateType none .. => .isDirectory
  | .inappropriateType (some _) .. => .notDirectory
  | .invalidArgument .. => .nameTooLong
  | .permissionDenied .. => .denied
  | _ => .notText

def readText (path : String) : IO (String × Except CommandLine.FileError String) := do
  if path.contains '\x00' then return (path, .error .nullInPath)
  else
    try
      return (path, .ok (← IO.FS.readFile path))
    catch error =>
      return (path, .error (fileError error))

/-- What came of reading files.  A file that nothing asked for counts as missing. -/
def filesOf (results : List (String × Except CommandLine.FileError String)) : CommandLine.Files :=
  fun path => (results.lookup path).getD (.error .missing)

def settingsTarget (files : CommandLine.Files) : List String :=
  match CommandLine.readSettings files with
  | .ok settings => settings.schemaPath.toList
  | .error _ => []

/-- Carries out the command that the arguments describe, and gives the exit code. -/
def runProgram (arguments : List String) : IO UInt32 := do
  match CommandLine.Invocation.ofWords? arguments with
  | none =>
      IO.eprintln "Usage: rulequery [--schema FILE] COMMAND"
      return 2
  | some invocation =>
      let own ← invocation.paths.mapM readText
      let further ← (settingsTarget (filesOf own)).mapM readText
      let outcome := CommandLine.run (filesOf (own ++ further)) invocation
      IO.print outcome.output
      IO.eprint outcome.errors
      return outcome.code.toUInt32

end FilterQuery

def main (arguments : List String) : IO UInt32 :=
  FilterQuery.runProgram arguments
