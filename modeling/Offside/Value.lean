import Offside.Bindings
import Offside.Tree.Classes

/-!
# Values

A value is a handle: it is empty, or it holds an object and says whether it owns
it.  Owning plays no part in running; it is reported only.  `Handle.empty` owns
nothing by construction.

A third kind of value is another one on its way out of a method.  It comes from a
node that returns and ends the blocks around that node; only the body of a method
takes the mark off again.  Such a value may be bound and passed on like any other,
but nothing can be done with it.

Numbers, texts and flags never change, so objects hold them directly, together
with the origin that tells two equal ones apart.  Classes and instances change;
an object holds their number in the class table or in the heap.
-/

namespace Offside

/-- The number of an instance in the heap. -/
abbrev InstanceId := Nat

/-- What a value may hold. -/
inductive Object
  | number (origin : Origin) (value : Int)
  | text (origin : Origin) (content : String)
  | flag (origin : Origin) (value : Bool)
  | ofClass (id : ClassId)
  | ofInstance (id : InstanceId)
deriving DecidableEq, Repr, Inhabited

/-- A value. -/
inductive Handle
  /-- No object. -/
  | empty
  /-- An object, owned or shared. -/
  | holding (object : Object) (owning : Bool)
  /-- A value on its way out of a method. -/
  | returned (value : Handle)
deriving DecidableEq, Repr, Inhabited

/-- A scope binds variables or fields to values. -/
abbrev Scope : Type := Bindings Handle

namespace Object

/-- The class that the object is. -/
def class? : Object → Option ClassId
  | ofClass id => some id
  | number _ _ | text _ _ | flag _ _ | ofInstance _ => none

/-- The instance that the object is. -/
def instance? : Object → Option InstanceId
  | ofInstance id => some id
  | number _ _ | text _ _ | flag _ _ | ofClass _ => none

/-- Whether the object counts as true: numbers other than zero, texts that are not
empty, and the flag for truth. -/
def isTrue : Object → Bool
  | number _ value => value ≠ 0
  | text _ content => content ≠ ""
  | flag _ value => value
  | ofClass _ | ofInstance _ => false

end Object

namespace Handle

/-- A handle that owns its object. -/
def own (object : Object) : Handle :=
  holding object true

/-- A handle that does not own its object. -/
def share (object : Object) : Handle :=
  holding object false

/-- The object of a handle. -/
def object? : Handle → Option Object
  | empty | returned _ => none
  | holding object _ => some object

/-- Whether the handle owns its object. -/
def isOwning : Handle → Bool
  | empty | returned _ => false
  | holding _ owning => owning

/-- The class that the handle holds. -/
def class? (handle : Handle) : Option ClassId :=
  handle.object?.bind Object.class?

/-- The instance that the handle holds. -/
def instance? (handle : Handle) : Option InstanceId :=
  handle.object?.bind Object.instance?

end Handle

namespace Scope

/-- The classes that the names of a scope mean. -/
def classes (scope : Scope) : Bindings ClassId :=
  scope.filterMap Handle.class?

end Scope

end Offside
