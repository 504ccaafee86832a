import Offside.Tree.Classes
import Offside.Grammar.Expression

/-!
# Reading statements

A statement is a class, a conditional, or a simple statement on a line of its
own.  Blocks are lines between an `indent` and a `dedent`.

While statements are read, `Declared` grows: a class enters the class table, under
its name, when the header before its methods has been read, and each of its methods
is added when it has been read to its end.  A refusal leaves what was declared
before it.

As with expressions, every reader takes `inner`, which reads a statement off any
tape shorter than an outer one, and `statement` ties the knot.
-/

namespace Offside

/-- The reading of a class to its end. -/
structure Declaration where
  /-- How many tokens were passed by then. -/
  reached : Nat
  /-- The name of the class. -/
  name : String
  /-- The name of its parent. -/
  parent : Option String
deriving DecidableEq, Repr

/-- What reading a program declares. -/
structure Declared where
  /-- All classes. -/
  classes : Classes
  /-- The classes that a name means from here on. -/
  names : Bindings ClassId
  /-- The classes that were read to their end, the latest first. -/
  finished : List Declaration

/-- A computation that declares classes and may be refused. -/
abbrev Declaring (α : Type) : Type :=
  EStateM Tape.Refusal Declared α

namespace Declaring

/-- Reading that declares nothing. -/
def ofReading {α : Type} : Except Tape.Refusal α → Declaring α
  | .ok value => fun declared => .ok value declared
  | .error refusal => fun declared => .error refusal declared

/-- Reading that uses the classes declared so far. -/
def inSetting {α : Type} (source : Nat)
    (read : Expression.Setting → Except Tape.Refusal α) : Declaring α :=
  fun declared => ofReading (read ⟨source, declared.names⟩) declared

/-- Declares a class without methods under its name, and gives its number. -/
def declare (name : String) (parent : Option ClassId) : Declaring ClassId :=
  fun declared =>
    .ok declared.classes.count
      { declared with
        classes := declared.classes.declare name parent
        names := declared.names.set name declared.classes.count }

/-- Adds a method to a class. -/
def define (cls : ClassId) (method : Method) : Declaring Unit :=
  fun declared => .ok () { declared with classes := declared.classes.define cls method }

/-- Notes that a class was read to its end. -/
def finish (reached : Nat) (name : String) (parent : Option ClassId) : Declaring Unit :=
  fun declared =>
    let note : Declaration := ⟨reached, name, parent.map declared.classes.nameOf⟩
    .ok () { declared with finished := note :: declared.finished }

end Declaring

namespace Statement

open Tape (Step)
open Declaring (ofReading inSetting)

/-- Reads a statement, inside a method or not, off any tape shorter than an outer one. -/
abbrev Inner (outer : Tape) : Type :=
  (inMethod : Bool) → (tape : Tape) → tape.length < outer.length →
    Declaring (Step Node tape.length)

/-- The parameter that names the receiver. -/
def selfName : String := "self"

section

variable (source : Nat)

/-! ## Simple statements -/

/-- The assignment to a variable or, if fields follow its name, to the last of them. -/
def assignment (name : String) (fields : List String) (value : Node) : Node :=
  match fields.getLast? with
  | none => .assign name value
  | some field => .assignField (.variable name fields.dropLast) field value

/-- Behind a dotted name: an equals sign and a value, or the rest of an expression. -/
def namedTail (name : String) (fields : List String) (tape : Tape) :
    Declaring (Step Node (tape.length + 1)) :=
  if tape.current = .symbol '=' then do
    let equals ← ofReading tape.advance
    let value ← inSetting source fun setting => Expression.expression setting equals.rest
    return ⟨assignment name fields value.value, value.rest,
      by have := equals.succ_le; have := value.succ_le; omega⟩
  else inSetting source fun setting => Expression.continued setting name fields tape

/-- What follows the word `print`: arguments, or nothing at the end of the line. -/
def printed (tape : Tape) : Declaring (Step (List Node) (tape.length + 1)) :=
  if tape.current = .newline then return .stay [] tape
  else do
    let values ← inSetting source fun setting => Expression.expressions setting tape
    return values.widen (by omega)

/-- A statement without the end of its line. -/
def simple (inMethod : Bool) (tape : Tape) : Declaring (Step Node tape.length) :=
  match tape.current with
  | .keyword .returnWord => do
    if inMethod then
      let word ← ofReading tape.advance
      let value ← inSetting source fun setting => Expression.expression setting word.rest
      return ⟨.giveBack value.value, value.rest,
        by have := word.succ_le; have := value.succ_le; omega⟩
    else ofReading (tape.refuse .returnOutsideMethod)
  | .keyword .printWord => do
    let word ← ofReading tape.advance
    let values ← printed source word.rest
    return ⟨.print values.value, values.rest,
      by have := word.succ_le; have := values.succ_le; omega⟩
  | .identifier _ => do
    let name ← ofReading (Expression.dottedName tape)
    let statement ← namedTail source name.value.1 name.value.2 name.rest
    return statement.widen (by have := name.succ_le; omega)
  | _ => inSetting source fun setting => Expression.expression setting tape

/-- A statement that fills its line. -/
def line (inMethod : Bool) (tape : Tape) : Declaring (Step Node tape.length) := do
  let statement ← simple source inMethod tape
  let ending ← ofReading (statement.rest.expectKind (.layout .newline))
  return ⟨statement.value, ending.rest,
    by have := statement.succ_le; have := ending.succ_le; omega⟩

/-! ## Blocks -/

variable {outer : Tape} (inner : Inner outer)

/-- The statements before the end of a block. -/
def statements (inMethod : Bool) (tape : Tape) (h : tape.length < outer.length) :
    Declaring (Step (List Node) (tape.length + 1)) :=
  match tape.current with
  | .layout .dedent => return .stay [] tape
  | .layout .eof => ofReading (tape.refuse .unclosedBlock)
  | _ => do
    let first ← inner inMethod tape h
    have := first.succ_le
    let others ← statements inMethod first.rest (by omega)
    return ⟨first.value :: others.value, others.rest, by have := others.succ_le; omega⟩
termination_by tape.length

/-- The end of a line and an indented block. -/
def suite (inMethod : Bool) (tape : Tape) (h : tape.length ≤ outer.length) :
    Declaring (Step Node tape.length) := do
  let ending ← ofReading (tape.expectKind (.layout .newline))
  have := ending.succ_le
  let opening ← ofReading (ending.rest.expectKind (.layout .indent))
  have := opening.succ_le
  let block ← statements inner inMethod opening.rest (by omega)
  have := block.succ_le
  let closing ← ofReading block.rest.advance
  return ⟨.block block.value, closing.rest, by have := closing.succ_le; omega⟩

/-! ## Conditionals -/

/-- A conditional. -/
def conditional (inMethod : Bool) (tape : Tape) (h : tape.length ≤ outer.length) :
    Declaring (Step Node tape.length) := do
  let word ← ofReading (tape.expectKind (.keyword .ifWord))
  have := word.succ_le
  let condition ← inSetting source fun setting => Expression.expression setting word.rest
  have := condition.succ_le
  let colon ← ofReading (condition.rest.expectSymbol ':')
  have := colon.succ_le
  let consequent ← suite inner inMethod colon.rest (by omega)
  have := consequent.succ_le
  if consequent.rest.current = .keyword .elseWord then
    let otherwise ← ofReading consequent.rest.advance
    have := otherwise.succ_le
    let colon ← ofReading (otherwise.rest.expectSymbol ':')
    have := colon.succ_le
    let alternative ← suite inner inMethod colon.rest (by omega)
    return ⟨.ifThenElse condition.value consequent.value alternative.value, alternative.rest,
      by have := alternative.succ_le; omega⟩
  else return ⟨.ifThen condition.value consequent.value, consequent.rest, by omega⟩

/-! ## Classes -/

/-- The parameters of a method, with commas between them, if there are any. -/
def parameters (tape : Tape) : Tape.Reading (List String) (tape.length + 1) :=
  if tape.current.kind = .identifier then do
    let first ← tape.expectName
    let others ← Expression.namesAfter ',' first.rest
    return ⟨first.value :: others.value, others.rest,
      by have := first.succ_le; have := others.succ_le; omega⟩
  else return .stay [] tape

/-- The receiver is bound in every call, so naming it first is optional. -/
def withoutSelf : List String → List String
  | [] => []
  | first :: others => if first = selfName then others else first :: others

/-- A method. -/
def method (tape : Tape) (h : tape.length ≤ outer.length) :
    Declaring (Step Method tape.length) := do
  let word ← ofReading (tape.expectKind (.keyword .defWord))
  have := word.succ_le
  let name ← ofReading word.rest.expectName
  have := name.succ_le
  let opening ← ofReading (name.rest.expectSymbol '(')
  have := opening.succ_le
  let names ← ofReading (parameters opening.rest)
  have := names.succ_le
  let closing ← ofReading (names.rest.expectSymbol ')')
  have := closing.succ_le
  let colon ← ofReading (closing.rest.expectSymbol ':')
  have := colon.succ_le
  let block ← suite inner true colon.rest (by omega)
  return ⟨⟨name.value, withoutSelf names.value, .body block.value⟩, block.rest,
    by have := block.succ_le; omega⟩

/-- The methods before the end of a class, each added to the class. -/
def methods (cls : ClassId) (tape : Tape) (h : tape.length < outer.length) :
    Declaring (Step Unit (tape.length + 1)) :=
  if tape.current = .dedent then return .stay () tape
  else do
    let first ← method inner tape (by omega)
    Declaring.define cls first.value
    have := first.succ_le
    let others ← methods cls first.rest (by omega)
    return others.widen (by omega)
termination_by tape.length

/-- The class that the current token names.  A name that means no class is refused
before what follows it is looked at. -/
def base (setting : Expression.Setting) (tape : Tape) : Tape.Reading ClassId tape.length :=
  match tape.current with
  | .identifier name =>
    match setting.classes.get? name with
    | some cls => return (← tape.advance).map fun _ => cls
    | none => tape.refuse (.undefinedBase name)
  | other => tape.refuse (.mismatch (.anyOf .identifier) other)

/-- The parent that a class names in parentheses, if it names one. -/
def parentOf (tape : Tape) : Declaring (Step (Option ClassId) (tape.length + 1)) :=
  if tape.current = .symbol '(' then do
    let opening ← ofReading tape.advance
    have := opening.succ_le
    let parent ← inSetting source fun setting => base setting opening.rest
    have := parent.succ_le
    let closing ← ofReading (parent.rest.expectSymbol ')')
    return ⟨some parent.value, closing.rest, by have := closing.succ_le; omega⟩
  else return .stay none tape

/-- A class. -/
def classDefinition (tape : Tape) (h : tape.length ≤ outer.length) :
    Declaring (Step Node tape.length) := do
  let word ← ofReading (tape.expectKind (.keyword .classWord))
  have := word.succ_le
  let name ← ofReading word.rest.expectName
  have := name.succ_le
  let parent ← parentOf source name.rest
  have := parent.succ_le
  let colon ← ofReading (parent.rest.expectSymbol ':')
  have := colon.succ_le
  let ending ← ofReading (colon.rest.expectKind (.layout .newline))
  have := ending.succ_le
  let opening ← ofReading (ending.rest.expectKind (.layout .indent))
  have := opening.succ_le
  let cls ← Declaring.declare name.value parent.value
  let body ← methods inner cls opening.rest (by omega)
  have := body.succ_le
  let closing ← ofReading body.rest.advance
  Declaring.finish closing.rest.place.index name.value parent.value
  return ⟨.classDefinition cls, closing.rest, by have := closing.succ_le; omega⟩

/-- A statement, given how to read the statements inside it. -/
def layer (inMethod : Bool) (tape : Tape) (h : tape.length ≤ outer.length) :
    Declaring (Step Node tape.length) :=
  match tape.current with
  | .keyword .classWord => classDefinition source inner tape h
  | .keyword .ifWord => conditional source inner inMethod tape h
  | _ => line source inMethod tape

end

/-! ## Whole statements -/

/-- Reads a statement. -/
def statement (source : Nat) (inMethod : Bool) (tape : Tape) :
    Declaring (Step Node tape.length) :=
  layer source (fun within shorter _ => statement source within shorter) inMethod tape
    (Nat.le_refl _)
termination_by tape.length

/-- Reads statements up to the end of the source. -/
def program (source : Nat) (tape : Tape) : Declaring (List Node) :=
  if tape.current = .eof then return []
  else do
    let first ← statement source false tape
    have := first.succ_le
    return first.value :: (← program source first.rest)
termination_by tape.length

end Statement

end Offside
