import Offside.Value

/-!
# The heap

The heap holds the instances made so far, numbered in the order of their making,
and counts the numbers, texts and flags made so far.  An instance keeps its class
for ever; only its fields change.

Instances that do not exist have no fields, and binding their fields does nothing.

Where in memory an instance lies is up to the machine, so it is a parameter of the
heap.  It only shows in the text of an instance whose class gives none.
-/

namespace Offside

/-- An instance of a class. -/
structure Instance where
  /-- Its class. -/
  cls : ClassId
  /-- Its fields. -/
  fields : Scope
deriving Repr, Inhabited

/-- All instances, by number. -/
structure Heap where
  /-- The instances in the order of their making. -/
  instances : Array Instance
  /-- How many numbers, texts and flags were made. -/
  made : Nat
  /-- Where the instances lie. -/
  address : InstanceId → Nat

namespace Heap

/-- Nothing was made, on a machine where instances lie at their numbers. -/
def empty : Heap := ⟨#[], 0, id⟩

instance : Inhabited Heap := ⟨empty⟩

/-- The field that binds an instance to itself. -/
def selfName : String := "self"

/-- The class of an instance. -/
def classOf? (heap : Heap) (id : InstanceId) : Option ClassId :=
  heap.instances[id]?.map Instance.cls

/-- The fields of an instance. -/
def fields (heap : Heap) (id : InstanceId) : Scope :=
  (heap.instances[id]?.map Instance.fields).getD .empty

/-- Binds a field of an instance. -/
def setField (heap : Heap) (id : InstanceId) (name : String) (value : Handle) : Heap :=
  { heap with
    instances := heap.instances.modify id fun target =>
      { target with fields := target.fields.set name value } }

/-- Makes an instance whose only field is itself. -/
def create (heap : Heap) (cls : ClassId) : InstanceId × Heap :=
  let id := heap.instances.size
  let fields := Bindings.empty.set selfName (.share (.ofInstance id))
  (id, { heap with instances := heap.instances.push ⟨cls, fields⟩ })

/-- Makes a number, a text or a flag, given what to do with its origin. -/
def make (heap : Heap) (build : Origin → Object) : Object × Heap :=
  (build (.made heap.made), { heap with made := heap.made + 1 })

/-- The class of an instance keeps when a field is bound. -/
@[simp] theorem classOf?_setField (heap : Heap) (id other : InstanceId) (name : String)
    (value : Handle) : (heap.setField id name value).classOf? other = heap.classOf? other := by
  simp only [classOf?, setField, Array.getElem?_modify]
  split
  · rename_i h
    subst h
    cases heap.instances[id]? <;> rfl
  · rfl

/-- Binding a field of an instance that exists changes that field only. -/
@[simp] theorem fields_setField (heap : Heap) {id : InstanceId} (other : InstanceId) (name : String)
    (value : Handle) (h : id < heap.instances.size) :
    (heap.setField id name value).fields other =
      if id = other then (heap.fields id).set name value else heap.fields other := by
  simp only [fields, setField, Array.getElem?_modify]
  split
  · rename_i hid
    subst hid
    rw [Array.getElem?_eq_getElem h]
    rfl
  · rfl

/-- Making an instance keeps the classes of those that exist. -/
@[simp] theorem classOf?_create (heap : Heap) (cls : ClassId) (id : InstanceId) :
    (heap.create cls).2.classOf? id =
      if id = heap.instances.size then some cls else heap.classOf? id := by
  simp only [classOf?, create, Array.getElem?_push]
  split <;> rfl

end Heap

/-! ## Objects in the heap -/

/-- Whether a name means a method of so many parameters for an instance. -/
def Heap.hasMethod (heap : Heap) (classes : Classes) (id : InstanceId) (name : String)
    (arity : Nat) : Bool :=
  (heap.classOf? id).any fun cls => classes.hasMethod cls name arity

/-- The name of the class of an instance. -/
def Heap.className (heap : Heap) (classes : Classes) (id : InstanceId) : String :=
  ((heap.classOf? id).map classes.nameOf).getD ""

end Offside
