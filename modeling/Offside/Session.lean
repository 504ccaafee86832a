import Offside.Grammar.Program
import Offside.Execution.Node

/-!
# Sessions

A session runs one source after another over one global scope: variables and
classes of one source are there for the next.  A source with a fault in it does not
run at all and leaves the session as it was; a program that stops with a fault
leaves what it has done so far.

Every source writes to an output of its own, which `Report` holds together with the
way it ended.
-/

namespace Offside

/-- What is wrong with a source or a program. -/
inductive Failure
  | source (fault : SourceFault)
  | run (fault : RunFault)
deriving DecidableEq, Repr

namespace Failure

/-- The message of a failure. -/
def message : Failure → String
  | source fault => fault.message
  | run fault => fault.message

/-- The family that a failure belongs to. -/
def family : Failure → String
  | source fault => fault.family
  | run fault => fault.family

end Failure

/-- How a source ended. -/
inductive Conclusion
  /-- It ran to its end. -/
  | finished
  /-- It is at fault. -/
  | failed (failure : Failure)
  /-- It stopped for a reason that is no fault of the program. -/
  | stopped (reason : Stop)
deriving DecidableEq, Repr

/-- What sources have in common. -/
structure Session where
  /-- All classes. -/
  classes : Classes
  /-- All instances. -/
  heap : Heap
  /-- The global variables. -/
  globals : Scope
  /-- How many sources were run. -/
  sources : Nat

/-- What comes of a source. -/
structure Report where
  /-- The session afterwards. -/
  session : Session
  /-- How the source ended. -/
  conclusion : Conclusion
  /-- What it wrote. -/
  output : String
  /-- What a log would say about reading it. -/
  notes : List Note

namespace Session

/-- Nothing was run. -/
def empty : Session :=
  ⟨.empty, .empty, .empty, 0⟩

/-- More fuel than any run of a computer uses up. -/
def ampleFuel : Nat := Nat.pow 10 15

/-- Reads a source against a session.  The names of classes are those that the global
variables give them. -/
def read (session : Session) (source : String) : Except SourceFault Program :=
  (Tape.ofString source).map fun tape =>
    Program.read session.sources session.classes session.globals.classes tape

/-- The conclusion of a stop. -/
def conclude : Stop → Conclusion
  | .fault fault => .failed (.run fault)
  | reason => .stopped reason

/-- Runs a program that was read. -/
def execute (fuel : Nat) (session : Session) (program : Program) (tree : Node) : Report :=
  let classes := program.declared.classes
  let after (state : State) : Session :=
    ⟨classes, state.heap, state.scope, session.sources + 1⟩
  match executeProgram classes fuel tree ⟨session.heap, session.globals, ""⟩ with
  | .ok _ state => ⟨after state, .finished, state.output, program.notes⟩
  | .error reason state => ⟨after state, conclude reason, state.output, program.notes⟩

/-- Runs a source. -/
def run (fuel : Nat) (session : Session) (source : String) : Report :=
  match session.read source with
  | .error fault => ⟨session, .failed (.source fault), "", []⟩
  | .ok program =>
    match program.result with
    | .error fault => ⟨session, .failed (.source fault), "", program.notes⟩
    | .ok tree => session.execute fuel program tree

/-- The same session with no global variables. -/
def fresh (session : Session) : Session :=
  { session with globals := .empty }

end Session

namespace Report

/-- One line about a report. -/
def summary (report : Report) : String :=
  match report.conclusion with
  | .failed failure =>
    "<RunResult error=" ++ failure.family ++ "(" ++ Quoted.ofString failure.message ++ ")>"
  | .finished | .stopped _ => "<RunResult ok>"

end Report

end Offside
