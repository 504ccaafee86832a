import Offside.Heap
import Offside.RunFault

/-!
# Running computations

A computation runs on a heap, a scope and the output written so far.  It gives a
value or stops early, and either way it leaves the state it has reached: what was
done before a fault stays done.

Apart from faults of the program a computation stops when a number is too long to
be written, when something is asked of a value on its way out of a method
(`Run.inspect`), and when its fuel runs out.
-/

namespace Offside

/-- What a computation runs on. -/
structure State where
  /-- The instances. -/
  heap : Heap
  /-- The variables in reach. -/
  scope : Scope
  /-- What was written so far. -/
  output : String
deriving Inhabited

/-- What a number is written for. -/
inductive Purpose
  /-- The text of a value, which `print` and `str` ask for. -/
  | text
  /-- The description of a value in a message about values that do not compare. -/
  | description
deriving DecidableEq, Repr

/-- Why a computation stops early. -/
inductive Stop
  /-- A fault of the program. -/
  | fault (fault : RunFault)
  /-- This number was to be written, and it is too long. -/
  | unwritable {value : Int} {purpose : Purpose}
  /-- Something was asked of a value on its way out of a method. -/
  | strayReturn
  /-- The fuel is used up. -/
  | outOfFuel
deriving DecidableEq, Repr

/-- A running computation. -/
abbrev Run (α : Type) : Type :=
  EStateM Stop State α

namespace Run

/-- Stops with a fault. -/
def fail {α : Type} (fault : RunFault) : Run α :=
  fun state => .error (.fault fault) state

/-- Stops without a fault. -/
def stop {α : Type} (reason : Stop) : Run α :=
  fun state => .error reason state

/-- Writes to the output. -/
def write (text : String) : Run Unit :=
  fun state => .ok () { state with output := state.output ++ text }

/-- Binds a variable. -/
def assign (name : String) (value : Handle) : Run Unit :=
  fun state => .ok () { state with scope := state.scope.set name value }

/-- Binds a field of an instance. -/
def assignField (id : InstanceId) (name : String) (value : Handle) : Run Unit :=
  fun state => .ok () { state with heap := state.heap.setField id name value }

/-- Makes a number, a text or a flag, and gives the handle that owns it. -/
def make (build : Origin → Object) : Run Handle :=
  fun state =>
    let (object, heap) := state.heap.make build
    .ok (.own object) { state with heap }

/-- Makes an instance. -/
def create (cls : ClassId) : Run InstanceId :=
  fun state =>
    let (id, heap) := state.heap.create cls
    .ok id { state with heap }

/-- Runs a computation in a scope of its own and comes back to the present one. -/
def within {α : Type} (scope : Scope) (inner : Run α) : Run α :=
  fun state =>
    match inner { state with scope } with
    | .ok value after => .ok value { after with scope := state.scope }
    | .error reason after => .error reason { after with scope := state.scope }

/-- The object of a value.  A value on its way out of a method gives no answer. -/
def inspect : Handle → Run (Option Object)
  | .empty => pure none
  | .holding object _ => pure (some object)
  | .returned _ => stop .strayReturn

/-- The instance that a value is. -/
def instanceOf? (handle : Handle) : Run (Option InstanceId) :=
  return (← inspect handle).bind Object.instance?

/-- Whether a value counts as true; the empty one does not. -/
def truth (handle : Handle) : Run Bool :=
  return (← inspect handle).any Object.isTrue

/-- The value of a field of an instance.  A field that is not bound yet is bound to the
empty value first. -/
def readField (id : InstanceId) (name : String) : Run Handle :=
  fun state =>
    match (state.heap.fields id).get? name with
    | some value => .ok value state
    | none => .ok .empty { state with heap := state.heap.setField id name .empty }

/-- Follows fields from a value. -/
def follow : Handle → List String → Run Handle
  | handle, [] => pure handle
  | handle, field :: fields => do
    match ← instanceOf? handle with
    | none => fail (.fieldRead field)
    | some id => follow (← readField id field) fields

/-- The value of a variable, and of fields from there. -/
def lookup (name : String) (fields : List String) : Run Handle :=
  fun state =>
    match state.scope.get? name with
    | none => fail (.unknownVariable name) state
    | some value => follow value fields state

end Run

end Offside
