import Offside.Tree.Node

/-!
# The class table

Classes are numbered in the order of their making.  A class has a name, a parent
that was made before it, and methods in the order of their definition.

`Classes.resolve` finds the method that a name means for a class: the first of
that name among the methods of the class itself, else of its parent, and so on.
How many parameters a method has plays no part.  The search ends because parents
come before their children (`Classes.ordered`).
-/

namespace Offside

/-- A method of a class. -/
structure Method where
  /-- Its name. -/
  name : String
  /-- The parameters besides the receiver. -/
  parameters : List String
  /-- What a call runs. -/
  body : Node
deriving Repr, Inhabited, BEq

/-- A class. -/
structure ClassRecord where
  /-- Its name. -/
  name : String
  /-- The class it inherits from. -/
  parent : Option ClassId
  /-- Its own methods, in the order of their definition. -/
  methods : List Method
deriving Repr, Inhabited, BEq

/-- All classes, by number. -/
structure Classes where
  /-- The classes in the order of their making. -/
  records : Array ClassRecord
  /-- Parents come before their children. -/
  ordered : ∀ (id : ClassId) (record : ClassRecord), records[id]? = some record →
    ∀ parent, record.parent = some parent → parent < id

namespace Classes

/-- No classes. -/
def empty : Classes :=
  ⟨#[], by simp⟩

instance : Inhabited Classes := ⟨empty⟩

/-- How many classes there are. -/
def count (classes : Classes) : Nat :=
  classes.records.size

/-- The class of a number. -/
def get? (classes : Classes) (id : ClassId) : Option ClassRecord :=
  classes.records[id]?

/-- The name of a class; a number without a class has the empty name. -/
def nameOf (classes : Classes) (id : ClassId) : String :=
  ((classes.get? id).map ClassRecord.name).getD ""

/-- Makes a class without methods.  A parent that does not exist is left out. -/
def declare (classes : Classes) (name : String) (parent : Option ClassId) : Classes where
  records := classes.records.push ⟨name, parent.filter (· < classes.count), []⟩
  ordered := by
    intro id record hrecord ancestor hancestor
    rw [Array.getElem?_push] at hrecord
    split at hrecord
    · cases hrecord
      simp only [Option.filter_eq_some_iff, decide_eq_true_eq] at hancestor
      rename_i hid
      exact hid ▸ hancestor.2
    · exact classes.ordered id record hrecord ancestor hancestor

/-- Adds a method to a class, after those it has. -/
def define (classes : Classes) (id : ClassId) (method : Method) : Classes where
  records := classes.records.modify id fun record =>
    { record with methods := record.methods ++ [method] }
  ordered := by
    intro index record hrecord ancestor hancestor
    rw [Array.getElem?_modify] at hrecord
    split at hrecord
    · obtain ⟨old, hold, rfl⟩ := Option.map_eq_some_iff.mp hrecord
      exact classes.ordered index old hold ancestor hancestor
    · exact classes.ordered index record hrecord ancestor hancestor

/-- The method that a name means for a class. -/
def resolve (classes : Classes) (id : ClassId) (name : String) : Option Method :=
  match hrecord : classes.records[id]? with
  | none => none
  | some record =>
    match record.methods.find? fun method => method.name == name with
    | some method => some method
    | none =>
      match hparent : record.parent with
      | none => none
      | some parent =>
        have : parent < id := classes.ordered id record hrecord parent hparent
        classes.resolve parent name
termination_by id

/-- The own methods of a class come before those of its parent. -/
theorem resolve_eq (classes : Classes) (id : ClassId) (name : String) :
    classes.resolve id name =
      (classes.get? id).bind fun record =>
        (record.methods.find? fun method => method.name == name).or
          (record.parent.bind fun parent => classes.resolve parent name) := by
  rw [resolve]
  split
  · rename_i hnone
    simp only [get?, hnone, Option.bind_none]
  · rename_i record hrecord
    simp only [get?, hrecord, Option.bind_some]
    split
    · rename_i method hfind
      simp only [hfind, Option.some_or]
    · rename_i hfind
      simp only [hfind, Option.none_or]
      split
      · rename_i hparent
        simp only [hparent, Option.bind_none]
      · rename_i parent hparent
        simp only [hparent, Option.bind_some]

/-- Whether a name means a method of so many parameters for a class. -/
def hasMethod (classes : Classes) (id : ClassId) (name : String) (arity : Nat) : Bool :=
  match classes.resolve id name with
  | some method => method.parameters.length == arity
  | none => false

end Classes

end Offside
