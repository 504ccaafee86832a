import Offside.Bindings
import Offside.Tree.Node
import Offside.Grammar.Tape

/-!
# Reading expressions

From the loosest to the tightest, the levels of an expression are

* `or`, then `and`, both joining any number of operands from the left,
* `not`, before an operand of its own level,
* one comparison of two sums at most,
* `+` and `-`, then `*` and `/`, both joining from the left,
* the sign, before an operand of its own level,
* literals, names, calls and expressions in parentheses.

Every reader below takes `inner`, which reads a whole expression off any tape
shorter than an outer one, and uses it for what stands in parentheses; `expression` at
the end ties the knot.  The levels above the sign are written as tails: what may
follow when the leftmost operand has been read already.  That is what a statement
needs that has read a dotted name before it knows whether an assignment follows
(`continued`).
-/

namespace Offside.Expression

open Tape (Reading Step Refusal)

/-- What a reader of expressions has to know. -/
structure Setting where
  /-- The number of the source, for the origins of its literals. -/
  source : Nat
  /-- The classes that a name may mean. -/
  classes : Bindings ClassId

/-- Reads an expression off any tape shorter than an outer one. -/
abbrev Inner (outer : Tape) : Type :=
  (tape : Tape) → tape.length < outer.length → Reading Node tape.length

/-- The name of the call that gives the text of its argument. -/
def strName : String := "str"

/-! ## Names -/

/-- The names that follow a name, each after a separator. -/
def namesAfter (separator : Char) (tape : Tape) : Reading (List String) (tape.length + 1) :=
  if tape.current = .symbol separator then do
    let mark ← tape.advance
    let name ← mark.rest.expectName
    have := mark.shorter
    have := name.shorter
    let others ← namesAfter separator name.rest
    return ⟨name.value :: others.value, others.rest, by have := others.shorter; omega⟩
  else return .stay [] tape
termination_by tape.length

/-- A name, and the names of fields that follow it. -/
def dottedName (tape : Tape) : Reading (String × List String) tape.length := do
  let name ← tape.expectName
  let fields ← namesAfter '.' name.rest
  return ⟨(name.value, fields.value), fields.rest,
    by have := name.shorter; have := fields.shorter; omega⟩

/-! ## Arguments -/

section

variable {outer : Tape} (inner : Inner outer)

/-- The arguments that follow an argument, each after a comma. -/
def moreArguments (tape : Tape) (h : tape.length ≤ outer.length) :
    Reading (List Node) (tape.length + 1) :=
  if tape.current = .symbol ',' then do
    let comma ← tape.advance
    have := comma.shorter
    let argument ← inner comma.rest (by omega)
    have := argument.shorter
    let others ← moreArguments argument.rest (by omega)
    return ⟨argument.value :: others.value, others.rest, by have := others.shorter; omega⟩
  else return .stay [] tape
termination_by tape.length

/-- One argument or more. -/
def someArguments (tape : Tape) (h : tape.length < outer.length) :
    Reading (List Node) tape.length := do
  let first ← inner tape h
  have := first.shorter
  let others ← moreArguments inner first.rest (by omega)
  return ⟨first.value :: others.value, others.rest, by have := others.shorter; omega⟩

/-- Arguments in parentheses. -/
def arguments (tape : Tape) (h : tape.length ≤ outer.length) :
    Reading (List Node) tape.length := do
  let opening ← tape.expectSymbol '('
  have := opening.shorter
  if opening.rest.current = .symbol ')' then
    let closing ← opening.rest.expectSymbol ')'
    return ⟨[], closing.rest, by have := closing.shorter; omega⟩
  else
    let values ← someArguments inner opening.rest (by omega)
    let closing ← values.rest.expectSymbol ')'
    return ⟨values.value, closing.rest,
      by have := values.shorter; have := closing.shorter; omega⟩

/-- The method calls that follow a call, each after a point. -/
def moreCalls (receiver : Node) (tape : Tape) (h : tape.length ≤ outer.length) :
    Reading Node (tape.length + 1) :=
  if tape.current = .symbol '.' then do
    let point ← tape.advance
    let method ← point.rest.expectName
    have := point.shorter
    have := method.shorter
    let values ← arguments inner method.rest (by omega)
    have := values.shorter
    let calls ← moreCalls (.call receiver method.value values.value) values.rest (by omega)
    return calls.widen (by omega)
  else return .stay receiver tape
termination_by tape.length

variable (setting : Setting)

/-- What a dotted name followed by arguments means: a method call if it has a field;
else the text of its one argument, or a new instance. -/
def application (name : String) (fields : List String) (values : List Node) (behind : Tape) :
    Except Refusal Node :=
  match fields.getLast? with
  | some method => .ok (.call (.variable name fields.dropLast) method values)
  | none =>
    if name = strName then
      match values with
      | [operand] => .ok (.stringify operand)
      | _ => behind.refuse .wrongStrArity
    else
      match setting.classes.get? name with
      | some cls => .ok (.create cls values)
      | none => behind.refuse (.notClass name)

/-- What follows a dotted name: nothing, or arguments and method calls. -/
def reference (name : String) (fields : List String) (tape : Tape)
    (h : tape.length ≤ outer.length) : Reading Node (tape.length + 1) :=
  if tape.current = .symbol '(' then do
    let values ← arguments inner tape h
    let call ← application setting name fields values.value values.rest
    have := values.shorter
    let calls ← moreCalls inner call values.rest (by omega)
    return calls.widen (by omega)
  else return .stay (.variable name fields) tape

/-! ## Operands -/

/-- A literal, a name or call, or an expression in parentheses. -/
def primary (tape : Tape) (h : tape.length ≤ outer.length) : Reading Node tape.length :=
  let origin : Origin := .literal setting.source tape.place.index
  match tape.current with
  | .number value => return (← tape.advance).map fun _ => .number origin value
  | .string content => return (← tape.advance).map fun _ => .text origin content
  | .keyword .trueWord => return (← tape.advance).map fun _ => .flag origin true
  | .keyword .falseWord => return (← tape.advance).map fun _ => .flag origin false
  | .keyword .noneWord => return (← tape.advance).map fun _ => .absent
  | .symbol '(' => do
    let opening ← tape.advance
    have := opening.shorter
    let value ← inner opening.rest (by omega)
    let closing ← value.rest.expectSymbol ')'
    return ⟨value.value, closing.rest,
      by have := value.shorter; have := closing.shorter; omega⟩
  | .identifier _ => do
    let name ← dottedName tape
    have := name.shorter
    let value ← reference inner setting name.value.1 name.value.2 name.rest (by omega)
    return value.widen (by omega)
  | other => tape.refuse (.unexpectedToken other)

/-- An operand with any number of signs; a sign subtracts from zero. -/
def signed (tape : Tape) (h : tape.length ≤ outer.length) : Reading Node tape.length :=
  if tape.current = .symbol '-' then do
    let sign ← tape.advance
    have := sign.shorter
    let operand ← signed sign.rest (by omega)
    let zero : Node := .number (.literal setting.source tape.place.index) 0
    return ⟨.arithmetic .subtract zero operand.value, operand.rest,
      by have := operand.shorter; omega⟩
  else primary inner setting tape h
termination_by tape.length

/-! ## Operators -/

/-- Operators that join operands from the left: `joins` says which tokens are such
operators, `operand` reads what stands to their right. -/
def joined {outer : Tape} (joins : Token → Option (Node → Node → Node))
    (operand : (tape : Tape) → tape.length ≤ outer.length → Reading Node tape.length)
    (left : Node) (tape : Tape) (h : tape.length ≤ outer.length) : Reading Node (tape.length + 1) :=
  match joins tape.current with
  | none => return .stay left tape
  | some join => do
    let operator ← tape.advance
    have := operator.shorter
    let right ← operand operator.rest (by omega)
    have := right.shorter
    let whole ← joined joins operand (join left right.value) right.rest (by omega)
    return whole.widen (by omega)
termination_by tape.length

/-- Multiplication and division. -/
def productOperator : Token → Option (Node → Node → Node)
  | .symbol '*' => some (.arithmetic .multiply)
  | .symbol '/' => some (.arithmetic .divide)
  | _ => none

/-- Addition and subtraction. -/
def sumOperator : Token → Option (Node → Node → Node)
  | .symbol '+' => some (.arithmetic .add)
  | .symbol '-' => some (.arithmetic .subtract)
  | _ => none

/-- The comparison that a token means. -/
def relation : Token → Option Relation
  | .operator .equal => some .equal
  | .operator .notEqual => some .notEqual
  | .operator .lessOrEqual => some .lessOrEqual
  | .operator .greaterOrEqual => some .greaterOrEqual
  | .symbol '<' => some .less
  | .symbol '>' => some .greater
  | _ => none

/-- The connective `and`. -/
def conjunctionOperator : Token → Option (Node → Node → Node)
  | .keyword .andWord => some (.connective .and)
  | _ => none

/-- The connective `or`. -/
def disjunctionOperator : Token → Option (Node → Node → Node)
  | .keyword .orWord => some (.connective .or)
  | _ => none

/-- What may follow the first factor of a product. -/
def productTail (left : Node) (tape : Tape) (h : tape.length ≤ outer.length) :
    Reading Node (tape.length + 1) :=
  joined productOperator (signed inner setting) left tape h

/-- A product. -/
def product (tape : Tape) (h : tape.length ≤ outer.length) : Reading Node tape.length := do
  let first ← signed inner setting tape h
  have := first.shorter
  let whole ← productTail inner setting first.value first.rest (by omega)
  return whole.widen (by omega)

/-- What may follow the first factor of a sum. -/
def sumTail (left : Node) (tape : Tape) (h : tape.length ≤ outer.length) :
    Reading Node (tape.length + 1) := do
  let first ← productTail inner setting left tape h
  have := first.shorter
  let whole ← joined sumOperator (product inner setting) first.value first.rest (by omega)
  return whole.widen (by omega)

/-- A sum. -/
def sum (tape : Tape) (h : tape.length ≤ outer.length) : Reading Node tape.length := do
  let first ← signed inner setting tape h
  have := first.shorter
  let whole ← sumTail inner setting first.value first.rest (by omega)
  return whole.widen (by omega)

/-- What may follow the first factor of a comparison. -/
def comparisonTail (left : Node) (tape : Tape) (h : tape.length ≤ outer.length) :
    Reading Node (tape.length + 1) := do
  let first ← sumTail inner setting left tape h
  have := first.shorter
  match relation first.rest.current with
  | none => return first
  | some found =>
    let operator ← first.rest.advance
    have := operator.shorter
    let right ← sum inner setting operator.rest (by omega)
    return ⟨.comparison found first.value right.value, right.rest,
      by have := right.shorter; omega⟩

/-- A comparison with any number of `not`s. -/
def negated (tape : Tape) (h : tape.length ≤ outer.length) : Reading Node tape.length :=
  if tape.current = .keyword .notWord then do
    let word ← tape.advance
    have := word.shorter
    let operand ← negated word.rest (by omega)
    return ⟨.negation operand.value, operand.rest, by have := operand.shorter; omega⟩
  else do
    let first ← signed inner setting tape h
    have := first.shorter
    let whole ← comparisonTail inner setting first.value first.rest (by omega)
    return whole.widen (by omega)
termination_by tape.length

/-- Operands joined by `and`. -/
def conjunction (tape : Tape) (h : tape.length ≤ outer.length) : Reading Node tape.length := do
  let first ← negated inner setting tape h
  have := first.shorter
  let whole ← joined conjunctionOperator (negated inner setting) first.value first.rest (by omega)
  return whole.widen (by omega)

/-- Operands joined by `or`. -/
def disjunction (tape : Tape) (h : tape.length ≤ outer.length) : Reading Node tape.length := do
  let first ← conjunction inner setting tape h
  have := first.shorter
  let whole ← joined disjunctionOperator (conjunction inner setting) first.value first.rest
    (by omega)
  return whole.widen (by omega)

/-- What may follow the leftmost operand of an expression. -/
def disjunctionTail (left : Node) (tape : Tape) (h : tape.length ≤ outer.length) :
    Reading Node (tape.length + 1) := do
  let compared ← comparisonTail inner setting left tape h
  have := compared.shorter
  let first ← joined conjunctionOperator (negated inner setting) compared.value compared.rest
    (by omega)
  have := first.shorter
  let whole ← joined disjunctionOperator (conjunction inner setting) first.value first.rest
    (by omega)
  return whole.widen (by omega)

end

/-! ## Whole expressions -/

/-- Reads an expression. -/
def expression (setting : Setting) (tape : Tape) : Reading Node tape.length :=
  disjunction (fun shorter _ => expression setting shorter) setting tape (Nat.le_refl _)
termination_by tape.length

/-- Reads an expression that begins with a dotted name, behind that name. -/
def continued (setting : Setting) (name : String) (fields : List String) (tape : Tape) :
    Reading Node (tape.length + 1) := do
  let inner : Inner tape := fun shorter _ => expression setting shorter
  let first ← reference inner setting name fields tape (Nat.le_refl _)
  have := first.shorter
  let whole ← disjunctionTail inner setting first.value first.rest (by omega)
  return whole.widen (by omega)

/-- Reads one expression or more, with commas between them. -/
def expressions (setting : Setting) (tape : Tape) : Reading (List Node) tape.length := do
  let inner : Inner tape := fun shorter _ => expression setting shorter
  let first ← expression setting tape
  have := first.shorter
  let others ← moreArguments inner first.rest (by omega)
  return ⟨first.value :: others.value, others.rest, by have := others.shorter; omega⟩

end Offside.Expression
