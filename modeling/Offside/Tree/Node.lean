/-!
# Trees

A program is a tree of nodes.  Expressions and statements are one type: a
statement may stand wherever an operand may, and running it there gives its value
too.

Literals name their origin, because every evaluation of one literal gives the
same object.  Class nodes name their class by its number in the class table.
-/

namespace Offside

/-- The number of a class in the class table. -/
abbrev ClassId := Nat

/-- Where an object comes from.  Two handles hold the same object exactly if their
objects have one origin. -/
inductive Origin
  /-- A literal of a source, counted from the front of that source. -/
  | literal (source index : Nat)
  /-- Made while running, counted in the order of making. -/
  | made (serial : Nat)
deriving DecidableEq, Repr, Inhabited

/-- The operators of arithmetic. -/
inductive Arithmetic
  | add
  | subtract
  | multiply
  | divide
deriving DecidableEq, Repr

/-- The connectives, which read their right operand only if they need it. -/
inductive Connective
  | or
  | and
deriving DecidableEq, Repr

/-- The comparisons. -/
inductive Relation
  | equal
  | notEqual
  | less
  | lessOrEqual
  | greater
  | greaterOrEqual
deriving DecidableEq, Repr

/-- A program or a part of one. -/
inductive Node
  /-- A number literal. -/
  | number (origin : Origin) (value : Int)
  /-- A string literal. -/
  | text (origin : Origin) (content : String)
  /-- A truth value. -/
  | flag (origin : Origin) (value : Bool)
  /-- The empty value. -/
  | absent
  /-- A variable, and the fields to follow from it. -/
  | variable (name : String) (fields : List String)
  | arithmetic (operator : Arithmetic) (left right : Node)
  | connective (connective : Connective) (left right : Node)
  | negation (operand : Node)
  | comparison (relation : Relation) (left right : Node)
  /-- The text of a value. -/
  | stringify (operand : Node)
  /-- A method call. -/
  | call (receiver : Node) (method : String) (arguments : List Node)
  /-- A new instance of a class. -/
  | create (cls : ClassId) (arguments : List Node)
  /-- Binds a variable. -/
  | assign (name : String) (value : Node)
  /-- Binds a field of an instance. -/
  | assignField (object : Node) (field : String) (value : Node)
  | print (arguments : List Node)
  /-- Statements in order, up to the first that returns. -/
  | block (statements : List Node)
  /-- Returns from a method. -/
  | giveBack (value : Node)
  /-- The body of a method, where returning ends. -/
  | body (block : Node)
  | ifThen (condition consequent : Node)
  | ifThenElse (condition consequent alternative : Node)
  /-- Binds the name of a class to it. -/
  | classDefinition (cls : ClassId)
deriving Repr, Inhabited, BEq

namespace Node

/-- Why parts do not make a node. -/
inductive BuildFault
  | emptyName
  | notClass
deriving DecidableEq, Repr

/-- What is said about parts that do not make a node. -/
def BuildFault.message : BuildFault → String
  | emptyName => "VariableValue needs at least one identifier"
  | notClass => "ClassDefinition needs a holder of a Class"

/-- The node of a dotted name, which has at least one part. -/
def dotted : List String → Except BuildFault Node
  | [] => .error .emptyName
  | name :: fields => .ok (.variable name fields)

/-- The node that defines a class. -/
def definition : Option ClassId → Except BuildFault Node
  | none => .error .notClass
  | some cls => .ok (.classDefinition cls)

end Node

end Offside
