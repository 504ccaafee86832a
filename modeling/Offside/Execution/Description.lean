import Offside.Text.Decimal
import Offside.Text.Quoted
import Offside.Heap

/-!
# Descriptions

How values, handles, methods and classes are named in messages and reports.  A
value has no description if it is a number that is too long to be written.
-/

namespace Offside

/-- The description of an object, or the number that is too long for one. -/
def Object.describe (classes : Classes) (heap : Heap) : Object → Except Int String
  | number _ value =>
    match Decimal.write? value with
    | some digits => .ok ("Number(" ++ digits ++ ")")
    | none => .error value
  | text _ content => .ok ("String(" ++ Quoted.ofString content ++ ")")
  | flag _ value => .ok ("Bool(" ++ (if value then "True" else "False") ++ ")")
  | ofClass id => .ok ("<Class " ++ classes.nameOf id ++ ">")
  | ofInstance id => .ok ("<ClassInstance of " ++ heap.className classes id ++ ">")

/-- The description of an object, if it has one. -/
def Object.describe? (classes : Classes) (heap : Heap) (object : Object) : Option String :=
  (object.describe classes heap).toOption

/-- The description of an object, if there is one. -/
def Object.describeAny (classes : Classes) (heap : Heap) : Option Object → Except Int String
  | none => .ok "None"
  | some object => object.describe classes heap

/-- The description of a handle. -/
def Handle.report? (classes : Classes) (heap : Heap) : Handle → Option String
  | empty => some "<ObjectHolder share None>"
  | holding object owning =>
    (object.describe? classes heap).map fun text =>
      "<ObjectHolder " ++ (if owning then "own" else "share") ++ " " ++ text ++ ">"
  | returned value =>
    (value.report? classes heap).map fun text => "<Returning " ++ text ++ ">"

/-- The description of a method. -/
def Method.report (method : Method) : String :=
  "<Method " ++ method.name ++ "(" ++ ", ".intercalate method.parameters ++ ")>"

end Offside
