import Offside.CommandLine.Script

/-!
# The command

Looks for the file that the arguments name, lets `Offside.CommandLine` say what comes
of it, and writes that to the standard channels.
-/

namespace Offside

open CommandLine

/-- The content of a file, if there is one. -/
def readFile? (path : String) : IO (Option ByteArray) := do
  try
    return some (← IO.FS.readBinFile path)
  catch _ => return none

/-- What the command does where it runs. -/
def outcomeHere (arguments : List String) : IO Outcome := do
  let directory ← IO.currentDir
  match plan directory.toString arguments with
  | .done outcome => return outcome
  | .runFile path verbose => return runFile path verbose (← readFile? path)

/-- The exit code of a status. -/
def exitCode : Status → UInt32
  | .exit code => code.toUInt32
  | .unusablePath | .overlongPath | .undecodable | .stopped _ => 1

end Offside

/-- Runs the script that the arguments name. -/
def main (arguments : List String) : IO UInt32 := do
  let outcome ← Offside.outcomeHere arguments
  (← IO.getStdout).putStr outcome.output
  (← IO.getStderr).putStr outcome.messages
  return Offside.exitCode outcome.status
