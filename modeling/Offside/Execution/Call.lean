import Offside.Execution.State
import Offside.Execution.Description

/-!
# Calls, texts and comparisons

What an instance does in a call, as a text and in a comparison is up to the
methods of its class.  The computations below take `run`, which runs a node, and
use it for the bodies of methods.

An object writes its text to a stream: to the output of the program, or to a buffer
from which the text is taken as a value.
-/

namespace Offside

/-- The methods with a meaning of their own. -/
inductive Special
  | construct
  | text
  | equal
  | less
  | add
deriving DecidableEq, Repr

/-- The name of a special method. -/
def Special.name : Special → String
  | construct => "__init__"
  | text => "__str__"
  | equal => "__eq__"
  | less => "__lt__"
  | add => "__add__"

/-- A stream is known by how a text is written to it, given what it holds.  What it
holds then is handed on to the next writing. -/
structure Stream (σ : Type) where
  write : σ → String → Run σ

/-- The output of the program.  The state holds what was written there. -/
def Stream.output : Stream Unit where
  write _ text := Run.write text

/-- A buffer, which the program cannot get at. -/
def Stream.buffer : Stream String where
  write content text := pure (content ++ text)

namespace Run

variable (classes : Classes) (run : Node → Run Handle)

/-! ## Calls -/

/-- The scope in which the body of a method starts: the receiver, then the
parameters with their arguments. -/
def frame (receiver : InstanceId) (parameters : List String) (values : List Handle) : Scope :=
  (Bindings.empty.set Heap.selfName (.share (.ofInstance receiver))).setAll
    (parameters.zip values)

/-- The method that a name means for an instance. -/
def methodOf? (heap : Heap) (id : InstanceId) (name : String) : Option Method :=
  (heap.classOf? id).bind fun cls => classes.resolve cls name

/-- Calls a method of an instance. -/
def call (receiver : InstanceId) (name : String) (values : List Handle) : Run Handle :=
  fun state =>
    match methodOf? classes state.heap receiver name with
    | some method =>
      if method.parameters.length = values.length then
        within (frame receiver method.parameters values) (run method.body) state
      else
        fail (.missingMethod (state.heap.className classes receiver) name values.length) state
    | none =>
      fail (.missingMethod (state.heap.className classes receiver) name values.length) state

/-- Whether a name means a method of so many parameters for an instance. -/
def canCall (receiver : InstanceId) (name : String) (arity : Nat) : Run Bool :=
  fun state => .ok (state.heap.hasMethod classes receiver name arity) state

/-! ## Texts -/

/-- The text of an instance whose class says nothing about it. -/
def anonymousText (heap : Heap) (id : InstanceId) : String :=
  "<" ++ heap.className classes id ++ " object at 0x" ++
    String.ofList (Nat.toDigits 16 (heap.address id)) ++ ">"

/-- The text of an object that no class has a say in. -/
def displayPlain : Object → Run String
  | .number _ value =>
    match Decimal.write? value with
    | some text => pure text
    | none => stop (@Stop.unwritable value .text)
  | .text _ content => pure content
  | .flag _ value => pure (if value then "True" else "False")
  | .ofClass id => pure ("Class " ++ classes.nameOf id)
  | .ofInstance id => fun state => .ok (anonymousText classes state.heap id) state

section

variable {σ : Type} (stream : Stream σ) (held : σ)

/-- Writes an object to a stream.  The class of an instance may have a method for its
text; what that method gives is written to the same stream in its place. -/
def printObject (fuel : Nat) : Object → Run σ
  | .ofInstance id => do
    if ← canCall classes id Special.text.name 0 then
      match fuel with
      | 0 => stop .outOfFuel
      | fuel + 1 =>
        match ← inspect (← call classes run id Special.text.name []) with
        | some object => printObject fuel object
        | none => stream.write held "None"
    else stream.write held (← displayPlain classes (.ofInstance id))
  | object => do stream.write held (← displayPlain classes object)

/-- Writes a value to a stream. -/
def printValue (fuel : Nat) (handle : Handle) : Run σ := do
  match ← inspect handle with
  | some object => printObject classes run stream held fuel object
  | none => stream.write held "None"

end

/-- The text of a value.  An object is written to a buffer of its own, while what its
methods print goes to the output. -/
def display (fuel : Nat) (handle : Handle) : Run String := do
  match ← inspect handle with
  | some object => printObject classes run .buffer "" fuel object
  | none => return "None"

/-! ## Comparisons -/

/-- Stops because two values do not compare. -/
def incomparable {α : Type} (question : Question) (left right : Option Object) : Run α :=
  fun state =>
    match Object.describeAny classes state.heap left,
      Object.describeAny classes state.heap right with
    | .error value, _ | _, .error value => stop (@Stop.unwritable value .description) state
    | .ok leftText, .ok rightText => fail (.notComparable question leftText rightText) state

/-- Asks the class of an instance how the instance compares with a value. -/
def askClass (id : InstanceId) (special : Special) (other : Handle) : Run Bool := do
  truth (← call classes run id special.name [other])

/-- Whether two values are equal. -/
def equal (left right : Handle) : Run Bool := do
  match ← inspect left with
  | some (.ofInstance id) => askClass classes run id .equal right
  | first =>
    let second ← inspect right
    match first, second with
    | some (.number _ value), some (.number _ other) => return value == other
    | some (.text _ content), some (.text _ other) => return content == other
    | some (.flag _ value), some (.flag _ other) => return value == other
    | none, none => return true
    | _, _ => incomparable classes .equality first second

/-- Whether one value is less than another. -/
def less (left right : Handle) : Run Bool := do
  match ← inspect left with
  | some (.ofInstance id) => askClass classes run id .less right
  | first =>
    let second ← inspect right
    match first, second with
    | some (.number _ value), some (.number _ other) => return decide (value < other)
    | some (.text _ content), some (.text _ other) => return decide (content < other)
    | some (.flag _ value), some (.flag _ other) => return !value && other
    | _, _ => incomparable classes .order first second

/-- Compares two values.  All comparisons come from `equal` and `less`. -/
def compare : Relation → Handle → Handle → Run Bool
  | .equal, left, right => equal classes run left right
  | .notEqual, left, right => return !(← equal classes run left right)
  | .less, left, right => less classes run left right
  | .lessOrEqual, left, right => do
    if ← less classes run left right then return true
    else equal classes run left right
  | .greater, left, right => do
    if ← less classes run left right then return false
    else return !(← equal classes run left right)
  | .greaterOrEqual, left, right => return !(← less classes run left right)

end Run

end Offside
