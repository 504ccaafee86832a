import Offside.Grammar.Expression
import Offside.Proofs.Ending.Clock

/-!
# Expressions with a clock

The readers of expressions, off a cursor.  Each of them does what the reader of its name does to a
tape, but nothing keeps it from going on at the end of the source: the loops go round as long as
there is a comma, a point or an operator, the operands of `-` and `not` are read by the same reader
again, and so is what stands in parentheses.  A loop or a recursion takes a number of turns, and
`expression` passes on one turn less than it has.

Every turn takes up a token before the next one.  Therefore more turns than there are tokens are
enough, and the reader comes to what the reading of the tape comes to (`agrees_expression`).
-/

namespace Offside.Clocked

open Expression (Setting Inner)

variable {tape outer : Tape} {turns time : Nat}

/-! ## Names -/

/-- The names that follow a name, each after a separator. -/
def namesAfter (separator : Char) : Nat → Clocked (List String)
  | 0 => late
  | turns + 1 => do
    if (← current) = .symbol separator then
      let _ ← advance
      let name ← expectName
      let others ← namesAfter separator turns
      return name :: others
    else return []

/-- A name, and the names of fields that follow it. -/
def dottedName (time : Nat) : Clocked (String × List String) := do
  let name ← expectName
  let fields ← namesAfter '.' time
  return (name, fields)

theorem agrees_namesAfter {separator : Char} (h : tape.length < turns) :
    Agrees tape (namesAfter separator turns) (Expression.namesAfter separator tape) := by
  induction turns generalizing tape with
  | zero => exact absurd h (Nat.not_lt_zero _)
  | succ turns ih =>
      rw [Expression.namesAfter]
      refine .current (.ite (fun hcurrent => ?_) fun _ => .pure _)
      refine (agrees_advance (hcurrent ▸ nofun)).bind fun mark => ?_
      refine agrees_expectName.bind fun name => ?_
      have := mark.succ_le
      have := name.succ_le
      refine (ih (by omega)).bind fun others => ?_
      exact .pure _

theorem agrees_dottedName (h : tape.length < time) :
    Agrees tape (dottedName time) (Expression.dottedName tape) := by
  refine agrees_expectName.bind fun name => ?_
  have := name.succ_le
  refine (agrees_namesAfter (by omega)).bind fun fields => ?_
  exact .pure _

/-! ## Arguments -/

section

variable (inner : Clocked Node)

/-- The arguments that follow an argument, each after a comma. -/
def moreArguments : Nat → Clocked (List Node)
  | 0 => late
  | turns + 1 => do
    if (← current) = .symbol ',' then
      let _ ← advance
      let argument ← inner
      let others ← moreArguments turns
      return argument :: others
    else return []

/-- One argument or more. -/
def someArguments (time : Nat) : Clocked (List Node) := do
  let first ← inner
  let others ← moreArguments inner time
  return first :: others

/-- Arguments in parentheses. -/
def arguments (time : Nat) : Clocked (List Node) := do
  let _ ← expectSymbol '('
  if (← current) = .symbol ')' then
    let _ ← expectSymbol ')'
    return []
  else
    let values ← someArguments inner time
    let _ ← expectSymbol ')'
    return values

/-- The method calls that follow a call, each after a point. -/
def moreCalls (time : Nat) : Nat → Node → Clocked Node
  | 0, _ => late
  | turns + 1, receiver => do
    if (← current) = .symbol '.' then
      let _ ← advance
      let method ← expectName
      let values ← arguments inner time
      moreCalls time turns (.call receiver method values)
    else return receiver

variable (setting : Setting)

/-- What a dotted name followed by arguments means. -/
def application (name : String) (fields : List String) (values : List Node) : Clocked Node :=
  match fields.getLast? with
  | some method => return .call (.variable name fields.dropLast) method values
  | none =>
    if name = Expression.strName then
      match values with
      | [operand] => return .stringify operand
      | _ => refuse .wrongStrArity
    else
      match setting.classes.get? name with
      | some cls => return .create cls values
      | none => refuse (.notClass name)

/-- What follows a dotted name: nothing, or arguments and method calls. -/
def reference (time : Nat) (name : String) (fields : List String) : Clocked Node := do
  if (← current) = .symbol '(' then
    let values ← arguments inner time
    let call ← application setting name fields values
    moreCalls inner time time call
  else return .variable name fields

/-! ## Operands -/

/-- A literal, a name or call, or an expression in parentheses. -/
def primary (time : Nat) : Clocked Node := do
  let place ← index
  let origin : Origin := .literal setting.source place
  match ← current with
  | .number value => do
    let _ ← advance
    return .number origin value
  | .string content => do
    let _ ← advance
    return .text origin content
  | .keyword .trueWord => do
    let _ ← advance
    return .flag origin true
  | .keyword .falseWord => do
    let _ ← advance
    return .flag origin false
  | .keyword .noneWord => do
    let _ ← advance
    return .absent
  | .symbol '(' => do
    let _ ← advance
    let value ← inner
    let _ ← expectSymbol ')'
    return value
  | .identifier _ => do
    let name ← dottedName time
    reference inner setting time name.1 name.2
  | other => refuse (.unexpectedToken other)

/-- An operand with any number of signs; a sign subtracts from zero. -/
def signed (time : Nat) : Nat → Clocked Node
  | 0 => late
  | turns + 1 => do
    let place ← index
    if (← current) = .symbol '-' then
      let _ ← advance
      let operand ← signed time turns
      return .arithmetic .subtract (.number (.literal setting.source place) 0) operand
    else primary inner setting time

/-! ## Operators -/

/-- Operators that join operands from the left. -/
def joined (joins : Token → Option (Node → Node → Node)) (operand : Clocked Node) :
    Nat → Node → Clocked Node
  | 0, _ => late
  | turns + 1, left => do
    match joins (← current) with
    | none => return left
    | some join =>
      let _ ← advance
      let right ← operand
      joined joins operand turns (join left right)

/-- What may follow the first factor of a product. -/
def productTail (time : Nat) (left : Node) : Clocked Node :=
  joined Expression.productOperator (signed inner setting time time) time left

/-- A product. -/
def product (time : Nat) : Clocked Node := do
  let first ← signed inner setting time time
  productTail inner setting time first

/-- What may follow the first factor of a sum. -/
def sumTail (time : Nat) (left : Node) : Clocked Node := do
  let first ← productTail inner setting time left
  joined Expression.sumOperator (product inner setting time) time first

/-- A sum. -/
def sum (time : Nat) : Clocked Node := do
  let first ← signed inner setting time time
  sumTail inner setting time first

/-- What may follow the first factor of a comparison. -/
def comparisonTail (time : Nat) (left : Node) : Clocked Node := do
  let first ← sumTail inner setting time left
  match Expression.relation (← current) with
  | none => return first
  | some found =>
    let _ ← advance
    let right ← sum inner setting time
    return .comparison found first right

/-- A comparison with any number of `not`s. -/
def negated (time : Nat) : Nat → Clocked Node
  | 0 => late
  | turns + 1 => do
    if (← current) = .keyword .notWord then
      let _ ← advance
      let operand ← negated time turns
      return .negation operand
    else
      let first ← signed inner setting time time
      comparisonTail inner setting time first

/-- Operands joined by `and`. -/
def conjunction (time : Nat) : Clocked Node := do
  let first ← negated inner setting time time
  joined Expression.conjunctionOperator (negated inner setting time time) time first

/-- Operands joined by `or`. -/
def disjunction (time : Nat) : Clocked Node := do
  let first ← conjunction inner setting time
  joined Expression.disjunctionOperator (conjunction inner setting time) time first

/-- What may follow the leftmost operand of an expression. -/
def disjunctionTail (time : Nat) (left : Node) : Clocked Node := do
  let compared ← comparisonTail inner setting time left
  let first ← joined Expression.conjunctionOperator (negated inner setting time time) time compared
  joined Expression.disjunctionOperator (conjunction inner setting time) time first

end

section

variable {reader : Clocked Node} {inner : Inner outer} {setting : Setting} {left : Node}
  (htime : outer.length < time) (hinner : ∀ shorter h, Agrees shorter reader (inner shorter h))

/-! ## Agreement of arguments -/

include hinner

theorem agrees_moreArguments {h : tape.length ≤ outer.length} (hturns : tape.length < turns) :
    Agrees tape (moreArguments reader turns) (Expression.moreArguments inner tape h) := by
  induction turns generalizing tape with
  | zero => exact absurd hturns (Nat.not_lt_zero _)
  | succ turns ih =>
      rw [Expression.moreArguments]
      refine .current (.ite (fun hcurrent => ?_) fun _ => .pure _)
      refine (agrees_advance (hcurrent ▸ nofun)).bind fun comma => ?_
      refine (hinner _ _).bind fun argument => ?_
      have := comma.succ_le
      have := argument.succ_le
      refine (ih (by omega)).bind fun others => ?_
      exact .pure _

include htime

theorem agrees_someArguments {h : tape.length < outer.length} :
    Agrees tape (someArguments reader time) (Expression.someArguments inner tape h) := by
  refine (hinner _ _).bind fun first => ?_
  have := first.succ_le
  refine (agrees_moreArguments hinner (by omega)).bind fun others => ?_
  exact .pure _

theorem agrees_arguments {h : tape.length ≤ outer.length} :
    Agrees tape (arguments reader time) (Expression.arguments inner tape h) := by
  refine agrees_expectSymbol.bind fun opening => ?_
  refine .current (.ite (fun _ => ?_) fun _ => ?_)
  · refine agrees_expectSymbol.bind fun closing => ?_
    exact .pure _
  · refine (agrees_someArguments htime hinner).bind fun values => ?_
    refine agrees_expectSymbol.bind fun closing => ?_
    exact .pure _

theorem agrees_moreCalls {receiver : Node} {h : tape.length ≤ outer.length}
    (hturns : tape.length < turns) :
    Agrees tape (moreCalls reader time turns receiver)
      (Expression.moreCalls inner receiver tape h) := by
  induction turns generalizing tape receiver with
  | zero => exact absurd hturns (Nat.not_lt_zero _)
  | succ turns ih =>
      rw [Expression.moreCalls]
      refine .current (.ite (fun hcurrent => ?_) fun _ => .pure _)
      refine (agrees_advance (hcurrent ▸ nofun)).bind fun point => ?_
      refine agrees_expectName.bind fun method => ?_
      refine (agrees_arguments htime hinner).bind fun values => ?_
      have := point.succ_le
      have := method.succ_le
      have := values.succ_le
      exact (ih (by omega)).widen

omit htime hinner in
/-- An application is refused, or there is a node to go on with. -/
theorem agrees_application {bound : Nat} {name : String} {fields : List String}
    {values : List Node} {next : Node → Clocked Node} {later : Node → Tape.Reading Node bound}
    (h : ∀ node, Agrees tape (next node) (later node)) :
    Agrees tape (application setting name fields values >>= next)
      (Expression.application setting name fields values tape >>= later) := by
  unfold application Expression.application
  cases fields.getLast? with
  | some method => exact h (.call _ method values)
  | none =>
      dsimp only
      split
      · match values with
        | [operand] => exact h (.stringify operand)
        | [] | _ :: _ :: _ => exact agrees_refuse _
      · cases setting.classes.get? name with
        | some cls => exact h (.create cls values)
        | none => exact agrees_refuse _

theorem agrees_reference {name : String} {fields : List String} {h : tape.length ≤ outer.length} :
    Agrees tape (reference reader setting time name fields)
      (Expression.reference inner setting name fields tape h) := by
  refine .current (.ite (fun _ => ?_) fun _ => .pure _)
  refine (agrees_arguments htime hinner).bind fun values => ?_
  refine agrees_application fun call => ?_
  have := values.succ_le
  exact (agrees_moreCalls htime hinner (by omega)).widen

/-! ## Agreement of operands -/

theorem agrees_primary {h : tape.length ≤ outer.length} :
    Agrees tape (primary reader setting time) (Expression.primary inner setting tape h) := by
  refine .index (.current ?_)
  unfold Expression.primary
  cases hcurrent : tape.current with
  | number value => exact agrees_take (hcurrent ▸ nofun)
  | string content => exact agrees_take (hcurrent ▸ nofun)
  | keyword word =>
      cases word with
      | trueWord => exact agrees_take (hcurrent ▸ nofun)
      | falseWord => exact agrees_take (hcurrent ▸ nofun)
      | noneWord => exact agrees_take (hcurrent ▸ nofun)
      | _ => exact agrees_refuse _
  | symbol character =>
      by_cases hopen : character = '('
      · subst hopen
        refine (agrees_advance (hcurrent ▸ nofun)).bind fun opening => ?_
        refine (hinner _ _).bind fun value => ?_
        refine agrees_expectSymbol.bind fun closing => ?_
        exact .pure _
      · simp only [Token.symbol.injEq, hopen, imp_self]
        exact agrees_refuse _
  | identifier name =>
      refine (agrees_dottedName (by omega)).bind fun name => ?_
      exact (agrees_reference htime hinner).widen
  | operator | layout => exact agrees_refuse _

theorem agrees_signed {h : tape.length ≤ outer.length} (hturns : tape.length < turns) :
    Agrees tape (signed reader setting time turns) (Expression.signed inner setting tape h) := by
  induction turns generalizing tape with
  | zero => exact absurd hturns (Nat.not_lt_zero _)
  | succ turns ih =>
      rw [Expression.signed]
      refine .index (.current (.ite (fun hcurrent => ?_) fun _ => agrees_primary htime hinner))
      refine (agrees_advance (hcurrent ▸ nofun)).bind fun sign => ?_
      have := sign.succ_le
      refine (ih (by omega)).bind fun operand => ?_
      exact .pure _

/-! ## Agreement of operators -/

omit htime hinner in
/-- Operands are joined alike if they are read alike. -/
theorem agrees_joined {joins : Token → Option (Node → Node → Node)} {operand : Clocked Node}
    {reading : (tape : Tape) → tape.length ≤ outer.length → Tape.Reading Node tape.length}
    {h : tape.length ≤ outer.length} (heof : joins .eof = none)
    (hoperand : ∀ shorter h, Agrees shorter operand (reading shorter h))
    (hturns : tape.length < turns) :
    Agrees tape (joined joins operand turns left)
      (Expression.joined joins reading left tape h) := by
  induction turns generalizing tape left with
  | zero => exact absurd hturns (Nat.not_lt_zero _)
  | succ turns ih =>
      rw [Expression.joined]
      refine .current ?_
      cases hjoin : joins tape.current with
      | none => exact .pure _
      | some join =>
          have hcurrent : tape.current ≠ .eof := fun hend => by simp [hend, heof] at hjoin
          refine (agrees_advance hcurrent).bind fun operator => ?_
          refine (hoperand _ _).bind fun right => ?_
          have := operator.succ_le
          have := right.succ_le
          exact (ih (by omega)).widen

theorem agrees_productTail {h : tape.length ≤ outer.length} :
    Agrees tape (productTail reader setting time left)
      (Expression.productTail inner setting left tape h) :=
  agrees_joined rfl (fun _ _ => agrees_signed htime hinner (by omega)) (by omega)

theorem agrees_product {h : tape.length ≤ outer.length} :
    Agrees tape (product reader setting time) (Expression.product inner setting tape h) := by
  refine (agrees_signed htime hinner (by omega)).bind fun first => ?_
  exact (agrees_productTail htime hinner).widen

theorem agrees_sumTail {h : tape.length ≤ outer.length} :
    Agrees tape (sumTail reader setting time left)
      (Expression.sumTail inner setting left tape h) := by
  refine (agrees_productTail htime hinner).bind fun first => ?_
  have := first.succ_le
  exact (agrees_joined rfl (fun _ _ => agrees_product htime hinner) (by omega)).widen

theorem agrees_sum {h : tape.length ≤ outer.length} :
    Agrees tape (sum reader setting time) (Expression.sum inner setting tape h) := by
  refine (agrees_signed htime hinner (by omega)).bind fun first => ?_
  exact (agrees_sumTail htime hinner).widen

theorem agrees_comparisonTail {h : tape.length ≤ outer.length} :
    Agrees tape (comparisonTail reader setting time left)
      (Expression.comparisonTail inner setting left tape h) := by
  refine (agrees_sumTail htime hinner).bind fun first => ?_
  refine .current ?_
  cases hrelation : Expression.relation first.rest.current with
  | none => exact .pure _
  | some found =>
      have hcurrent : first.rest.current ≠ .eof := fun hend => by
        simp [hend, Expression.relation] at hrelation
      refine (agrees_advance hcurrent).bind fun operator => ?_
      refine (agrees_sum htime hinner).bind fun right => ?_
      exact .pure _

theorem agrees_negated {h : tape.length ≤ outer.length} (hturns : tape.length < turns) :
    Agrees tape (negated reader setting time turns)
      (Expression.negated inner setting tape h) := by
  induction turns generalizing tape with
  | zero => exact absurd hturns (Nat.not_lt_zero _)
  | succ turns ih =>
      rw [Expression.negated]
      refine .current (.ite (fun hcurrent => ?_) fun _ => ?_)
      · refine (agrees_advance (hcurrent ▸ nofun)).bind fun word => ?_
        have := word.succ_le
        refine (ih (by omega)).bind fun operand => ?_
        exact .pure _
      · refine (agrees_signed htime hinner (by omega)).bind fun first => ?_
        exact (agrees_comparisonTail htime hinner).widen

theorem agrees_conjunction {h : tape.length ≤ outer.length} :
    Agrees tape (conjunction reader setting time)
      (Expression.conjunction inner setting tape h) := by
  refine (agrees_negated htime hinner (by omega)).bind fun first => ?_
  have := first.succ_le
  refine (agrees_joined rfl (fun _ _ => agrees_negated htime hinner (by omega)) ?_).widen
  omega

theorem agrees_disjunction {h : tape.length ≤ outer.length} :
    Agrees tape (disjunction reader setting time)
      (Expression.disjunction inner setting tape h) := by
  refine (agrees_conjunction htime hinner).bind fun first => ?_
  have := first.succ_le
  exact (agrees_joined rfl (fun _ _ => agrees_conjunction htime hinner) (by omega)).widen

theorem agrees_disjunctionTail {h : tape.length ≤ outer.length} :
    Agrees tape (disjunctionTail reader setting time left)
      (Expression.disjunctionTail inner setting left tape h) := by
  refine (agrees_comparisonTail htime hinner).bind fun compared => ?_
  have := compared.succ_le
  refine (agrees_joined rfl (fun _ _ => agrees_negated htime hinner (by omega)) ?_).bind
    fun first => ?_
  · omega
  have := first.succ_le
  exact (agrees_joined rfl (fun _ _ => agrees_conjunction htime hinner) (by omega)).widen

end

/-! ## Whole expressions -/

section

variable (setting : Setting)

/-- Reads an expression. -/
def expression : Nat → Clocked Node
  | 0 => late
  | time + 1 => disjunction (expression time) setting (time + 1)

/-- Reads an expression that begins with a dotted name, behind that name. -/
def continued (time : Nat) (name : String) (fields : List String) : Clocked Node := do
  let first ← reference (expression setting time) setting time name fields
  disjunctionTail (expression setting time) setting time first

/-- Reads one expression or more, with commas between them. -/
def expressions (time : Nat) : Clocked (List Node) := do
  let first ← expression setting time
  let others ← moreArguments (expression setting time) time
  return first :: others

end

variable {setting : Setting}

theorem agrees_expression (h : tape.length < time) :
    Agrees tape (expression setting time) (Expression.expression setting tape) := by
  induction time generalizing tape with
  | zero => exact absurd h (Nat.not_lt_zero _)
  | succ time ih =>
      rw [Expression.expression]
      exact agrees_disjunction h fun shorter hshorter => ih (by omega)

theorem agrees_continued {name : String} {fields : List String} (h : tape.length < time) :
    Agrees tape (continued setting time name fields)
      (Expression.continued setting name fields tape) := by
  have hinner (shorter : Tape) (hshorter : shorter.length < tape.length) :
      Agrees shorter (expression setting time) (Expression.expression setting shorter) :=
    agrees_expression (by omega)
  refine (agrees_reference h hinner).bind fun first => ?_
  exact (agrees_disjunctionTail h hinner).widen

theorem agrees_expressions (h : tape.length < time) :
    Agrees tape (expressions setting time) (Expression.expressions setting tape) := by
  refine (agrees_expression h).bind fun first => ?_
  have := first.succ_le
  refine (agrees_moreArguments (fun shorter _ => agrees_expression ?_) ?_).bind fun others => ?_
  · omega
  · omega
  · exact .pure _

end Offside.Clocked
