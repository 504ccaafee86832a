import Offside.Session
import Offside.Text.Newline
import Offside.CommandLine.Arguments
import Offside.CommandLine.Path

/-!
# Running a script

`answer` says what the command does, given its arguments, the directory where it
runs and the files that are there: what it writes to its two channels and how it
ends.  A script that is there is read as UTF-8 with any line ends and run in a
session of its own.

With the log on, the second channel tells when the script begins, what its reading
brought to light, and how it ended.
-/

namespace Offside.CommandLine

/-- How the command ends. -/
inductive Status
  /-- With an exit code. -/
  | exit (code : Nat)
  /-- The path of the script holds a character that no path may hold. -/
  | unusablePath
  /-- The path of the script is too long to be looked up. -/
  | overlongPath
  /-- The script is no text. -/
  | undecodable
  /-- The script stopped for a reason that is no fault of it. -/
  | stopped (reason : Stop)
deriving DecidableEq, Repr

/-- What the command does. -/
structure Outcome where
  /-- How it ends. -/
  status : Status
  /-- What it writes to the first channel. -/
  output : String
  /-- What it writes to the second channel. -/
  messages : String
deriving DecidableEq, Repr

/-! ## The log -/

/-- The parts of the program that write log lines. -/
inductive Logger
  | scanner
  | grammar
  | session
deriving DecidableEq, Repr

/-- The name of a logger. -/
def Logger.name : Logger → String
  | scanner => "mython.lexer"
  | grammar => "mython.parser"
  | session => "mython.core"

/-- A line of the log. -/
def logLine (logger : Logger) (text : String) : String :=
  "DEBUG:" ++ logger.name ++ ":" ++ text ++ "\n"

/-- The line of the log about a note. -/
def noteLine (note : Note) : String :=
  match note with
  | .endOfInput _ => logLine .scanner note.text
  | .declaredClass _ _ => logLine .grammar note.text

/-- The line of the log about the end of a script. -/
def conclusionLine (path : String) : Conclusion → String
  | .finished => logLine .session (path ++ " finished")
  | .failed failure => logLine .session (path ++ " failed: " ++ failure.message)
  | .stopped _ => ""

/-- The log of a script. -/
def log (path : String) (report : Report) : String :=
  logLine .session ("running " ++ path) ++ String.join (report.notes.map noteLine) ++
    conclusionLine path report.conclusion

/-! ## The script -/

/-- The text of a file. -/
def decode (content : ByteArray) : Option String :=
  (String.fromUTF8? content).map fun text => String.ofList (Newline.unify text.toList)

/-- What is written if a script is not there. -/
def notFound (path : String) : String :=
  "mython: script not found: " ++ path ++ "\n"

/-- What is written about a failure of a script. -/
def failureLine (failure : Failure) : String :=
  "mython: " ++ failure.family ++ ": " ++ failure.message ++ "\n"

/-- What comes of a script that was run. -/
def outcome (path : String) (verbose : Bool) (report : Report) : Outcome :=
  let log := if verbose then log path report else ""
  match report.conclusion with
  | .finished => ⟨.exit 0, report.output, log⟩
  | .failed failure => ⟨.exit 1, report.output, log ++ failureLine failure⟩
  | .stopped reason => ⟨.stopped reason, report.output, log⟩

/-- What comes of a path, given the content of the file there. -/
def runFile (path : String) (verbose : Bool) : Option ByteArray → Outcome
  | none => ⟨.exit 2, "", notFound path⟩
  | some content =>
    match decode content with
    | none => ⟨.undecodable, "", ""⟩
    | some source => outcome path verbose (Session.empty.run Session.ampleFuel source)

/-! ## The command -/

/-- What the command does before it looks for files: it ends, or it wants the file at
a path, with or without the log. -/
inductive Plan
  | done (outcome : Outcome)
  | runFile (path : String) (verbose : Bool)

/-- Makes a plan from arguments and the directory where the command runs. -/
def plan (directory : String) (arguments : List String) : Plan :=
  match request arguments with
  | .error fault => .done ⟨.exit 2, "", complaint fault⟩
  | .ok .help => .done ⟨.exit 0, help, ""⟩
  | .ok (.run script verbose) =>
    if Path.isUsable script then
      let parts := Path.resolve directory script
      if Path.isTooLong directory parts then .done ⟨.overlongPath, "", ""⟩
      else .runFile (Path.render parts) verbose
    else .done ⟨.unusablePath, "", ""⟩

/-- What the command does, given the files that are there. -/
def answer (directory : String) (files : String → Option ByteArray) (arguments : List String) :
    Outcome :=
  match plan directory arguments with
  | .done outcome => outcome
  | .runFile path verbose => runFile path verbose (files path)

end Offside.CommandLine
