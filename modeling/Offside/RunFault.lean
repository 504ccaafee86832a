import Offside.Tree.Node

/-!
# Faults of a running program

Everything that can go wrong while a program runs, by cause.
-/

namespace Offside

/-- What a comparison asks. -/
inductive Question
  | equality
  | order
deriving DecidableEq, Repr

/-- What can go wrong in a running program. -/
inductive RunFault
  | unknownVariable (name : String)
  /-- A field of something that is no instance was read. -/
  | fieldRead (field : String)
  /-- A field of something that is no instance was bound. -/
  | fieldBound (field : String)
  /-- Two values that do not compare, as they are described. -/
  | notComparable (question : Question) (left right : String)
  /-- Operands that an operator does not take. -/
  | unsupported (operator : Arithmetic)
  | divisorNotNumber
  | divisionByZero
  | dividendNotNumber
  /-- A class has no method of this name and arity. -/
  | missingMethod (className method : String) (arity : Nat)
  | returnOutsideMethod
deriving DecidableEq, Repr

/-- The sign of an operator. -/
def Arithmetic.sign : Arithmetic → String
  | add => "+"
  | subtract => "-"
  | multiply => "*"
  | divide => "/"

/-- What a message calls a question. -/
def Question.text : Question → String
  | equality => "equality"
  | order => "less"

namespace RunFault

/-- The message of a fault. -/
def message : RunFault → String
  | unknownVariable name => "unknown variable '" ++ name ++ "'"
  | fieldRead field => "cannot read field '" ++ field ++ "': value is not an object"
  | fieldBound field => "cannot assign field '" ++ field ++ "': value is not an object"
  | notComparable question left right =>
    "cannot compare " ++ left ++ " and " ++ right ++ " for " ++ question.text
  | unsupported operator => "unsupported operands for " ++ operator.sign
  | divisorNotNumber => "divisor is not a number"
  | divisionByZero => "division by zero"
  | dividendNotNumber => "dividend is not a number"
  | missingMethod className method arity =>
    className ++ "." ++ method ++ " with " ++ toString arity ++ " argument(s) is not implemented"
  | returnOutsideMethod => "'return' outside method"

/-- The family that a fault belongs to. -/
def family : RunFault → String
  | unknownVariable _ => "UnknownVariableError"
  | fieldRead _ | fieldBound _ => "NotAnObjectError"
  | notComparable _ _ _ => "NotComparableError"
  | unsupported _ | dividendNotNumber => "NotExecutableError"
  | divisorNotNumber => "DivisorUndefinedError"
  | divisionByZero => "DivisionByZeroError"
  | missingMethod _ _ _ => "MethodNotImplementedError"
  | returnOutsideMethod => "MythonError"

end RunFault

end Offside
