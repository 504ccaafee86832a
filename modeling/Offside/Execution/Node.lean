import Offside.Execution.Arithmetic

/-!
# Running nodes

`execute` runs a node.  Its fuel bounds how deep running may go: a method that calls
itself for ever runs out of any fuel, and a run that comes to an end with some fuel
comes to the same end with more.

Only `execute` is recursive through the tree.  What it does with each kind of node
is said by computations that take `run`, which is `execute` with less fuel.
-/

namespace Offside

namespace Run

variable (classes : Classes) (run : Node → Run Handle)

/-- Runs nodes for their values, in order. -/
def runAll : List Node → Run (List Handle)
  | [] => pure []
  | node :: nodes => do
    let value ← run node
    let values ← runAll nodes
    return value :: values

/-! ## Statements -/

/-- Writes values with blanks between them.  A blank is written before the value
after it is found. -/
def printMore (fuel : Nat) : List Node → Run Unit
  | [] => pure ()
  | node :: nodes => do
    write " "
    printValue classes run .output () fuel (← run node)
    printMore fuel nodes

/-- Writes a line of values. -/
def printLine (fuel : Nat) : List Node → Run Unit
  | [] => write "\n"
  | node :: nodes => do
    printValue classes run .output () fuel (← run node)
    printMore classes run fuel nodes
    write "\n"

/-- Runs nodes in order, up to the first that returns. -/
def sequence : List Node → Run Handle
  | [] => pure .empty
  | node :: nodes => do
    match ← run node with
    | .returned value => return .returned value
    | .empty | .holding _ _ => sequence nodes

/-- Runs a body; if it returns, its value is what it returns, and else it is empty. -/
def finish (block : Node) : Run Handle := do
  match ← run block with
  | .returned value => return value
  | .empty | .holding _ _ => return .empty

/-- Calls a method if there is one that fits, and else gives the empty value without
looking at the arguments. -/
def callMethod (receiver : Node) (name : String) (arguments : List Node) : Run Handle := do
  match ← instanceOf? (← run receiver) with
  | none => return .empty
  | some id =>
    if ← canCall classes id name arguments.length then
      let values ← runAll run arguments
      call classes run id name values
    else return .empty

/-- Makes an instance, and lets the class set it up if it has a method for it that
fits.  What that method gives is dropped. -/
def construct (cls : ClassId) (arguments : List Node) : Run Handle := do
  let id ← create cls
  if ← canCall classes id Special.construct.name arguments.length then
    let values ← runAll run arguments
    let _ ← call classes run id Special.construct.name values
  return .own (.ofInstance id)

/-- Binds a field of an instance.  The instance is found before the value. -/
def setField (object : Node) (field : String) (value : Node) : Run Handle := do
  match ← instanceOf? (← run object) with
  | none => fail (.fieldBound field)
  | some id =>
    let handle ← run value
    assignField id field handle
    return handle

end Run

open Run

/-- Runs a node. -/
def execute (classes : Classes) : Nat → Node → Run Handle
  | 0, _ => stop .outOfFuel
  | fuel + 1, node =>
    let run := execute classes fuel
    match node with
    | .number origin value => pure (.share (.number origin value))
    | .text origin content => pure (.share (.text origin content))
    | .flag origin value => pure (.share (.flag origin value))
    | .absent => pure .empty
    | .variable name fields => lookup name fields
    | .arithmetic operator left right => do
      let first ← run left
      let second ← run right
      calculate classes run operator first second
    | .connective .or left right => do
      if ← truth (← run left) then makeFlag true
      else makeFlag (← truth (← run right))
    | .connective .and left right => do
      if ← truth (← run left) then makeFlag (← truth (← run right))
      else makeFlag false
    | .negation operand => do makeFlag !(← truth (← run operand))
    | .comparison relation left right => do
      let first ← run left
      let second ← run right
      makeFlag (← compare classes run relation first second)
    | .stringify operand => do makeText (← display classes run fuel (← run operand))
    | .call receiver name arguments => callMethod classes run receiver name arguments
    | .create cls arguments => construct classes run cls arguments
    | .assign name value => do
      let handle ← run value
      assign name handle
      return handle
    | .assignField object field value => setField run object field value
    | .print arguments => do
      printLine classes run fuel arguments
      return .empty
    | .block statements => sequence run statements
    | .giveBack value => return .returned (← run value)
    | .body block => finish run block
    | .ifThen condition consequent => do
      if ← truth (← run condition) then run consequent else return .empty
    | .ifThenElse condition consequent alternative => do
      if ← truth (← run condition) then run consequent else run alternative
    | .classDefinition cls => do
      assign (classes.nameOf cls) (.own (.ofClass cls))
      return .empty

/-- Runs a whole program, which must not return. -/
def executeProgram (classes : Classes) (fuel : Nat) (program : Node) : Run Handle := do
  match ← execute classes fuel program with
  | .returned _ => fail .returnOutsideMethod
  | handle => return handle

end Offside
