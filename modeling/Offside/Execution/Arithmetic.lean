import Offside.Execution.Call

/-!
# Arithmetic

What the operators make of two values.  Numbers are unbounded, and a quotient is
rounded toward zero.  A sum is also defined for two texts, and for an instance
whose class has a method for it; no other operator looks at classes.
-/

namespace Offside.Run

variable (classes : Classes) (run : Node → Run Handle)

/-- The number that a value is. -/
def number? (handle : Handle) : Run (Option Int) := do
  match ← inspect handle with
  | some (.number _ value) => return some value
  | _ => return none

/-- Makes a number. -/
def makeNumber (value : Int) : Run Handle :=
  make fun origin => .number origin value

/-- Makes a text. -/
def makeText (content : String) : Run Handle :=
  make fun origin => .text origin content

/-- Makes a truth value. -/
def makeFlag (value : Bool) : Run Handle :=
  make fun origin => .flag origin value

/-- The sum of two numbers, two texts one after the other, or what the class of the
left operand makes of it. -/
def add (left right : Handle) : Run Handle := do
  let first ← inspect left
  let second ← inspect right
  match first, second with
  | some (.number _ value), some (.number _ other) => makeNumber (value + other)
  | some (.text _ content), some (.text _ other) => makeText (content ++ other)
  | some (.ofInstance id), _ =>
    if ← canCall classes id Special.add.name 1 then call classes run id Special.add.name [right]
    else fail (.unsupported .add)
  | _, _ => fail (.unsupported .add)

/-- What an operator other than division makes of two numbers. -/
def onNumbers (operator : Arithmetic) (combine : Int → Int → Int) (left right : Handle) :
    Run Handle := do
  let first ← number? left
  let second ← number? right
  match first, second with
  | some value, some other => makeNumber (combine value other)
  | _, _ => fail (.unsupported operator)

/-- The quotient of two numbers without their signs, with the sign that it has.  It is
rounded toward zero, for it is rounded down without its sign. -/
def truncatingDiv (dividend divisor : Int) : Int :=
  let quotient : Int := dividend.natAbs / divisor.natAbs
  if decide (0 ≤ dividend) = decide (0 < divisor) then quotient else -quotient

theorem truncatingDiv_eq_tdiv (dividend divisor : Int) :
    truncatingDiv dividend divisor = dividend.tdiv divisor := by
  unfold truncatingDiv
  cases divisor with
  | ofNat n =>
    cases n with
    | zero => simp
    | succ n =>
      have hsucc : ((n : Int) + 1).natAbs = n + 1 := by omega
      cases dividend <;> simp [Int.tdiv, hsucc]
  | negSucc n => cases dividend <;> simp [Int.tdiv]

/-- The quotient of two numbers, rounded toward zero.  The divisor is looked at
first. -/
def divide (left right : Handle) : Run Handle := do
  match ← number? right with
  | none => fail .divisorNotNumber
  | some divisor =>
    if divisor = 0 then fail .divisionByZero
    else
      match ← number? left with
      | none => fail .dividendNotNumber
      | some dividend => makeNumber (truncatingDiv dividend divisor)

/-- What an operator makes of two values. -/
def calculate : Arithmetic → Handle → Handle → Run Handle
  | .add, left, right => add classes run left right
  | .subtract, left, right => onNumbers .subtract (· - ·) left right
  | .multiply, left, right => onNumbers .multiply (· * ·) left right
  | .divide, left, right => divide left right

end Offside.Run
