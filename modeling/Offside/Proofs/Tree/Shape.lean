import Offside.Tree.Classes

/-!
# The shape of a tree

Two readings of one program differ in the origins of its literals and in the numbers
of the classes it makes.  `Node.shape rename` forgets the former and renumbers the
latter, and `Node.Mirrors rename copy original` says that nothing else differs.
-/

namespace Offside

mutual

/-- The tree with its classes renumbered and the origins of its literals forgotten. -/
def Node.shape (rename : ClassId → ClassId) : Node → Node
  | .number _ value => .number (.made 0) value
  | .text _ content => .text (.made 0) content
  | .flag _ value => .flag (.made 0) value
  | .absent => .absent
  | .variable name fields => .variable name fields
  | .arithmetic operator left right =>
    .arithmetic operator (left.shape rename) (right.shape rename)
  | .connective word left right => .connective word (left.shape rename) (right.shape rename)
  | .negation operand => .negation (operand.shape rename)
  | .comparison relation left right =>
    .comparison relation (left.shape rename) (right.shape rename)
  | .stringify operand => .stringify (operand.shape rename)
  | .call receiver method arguments =>
    .call (receiver.shape rename) method (Node.shapes rename arguments)
  | .create cls arguments => .create (rename cls) (Node.shapes rename arguments)
  | .assign name value => .assign name (value.shape rename)
  | .assignField object field value =>
    .assignField (object.shape rename) field (value.shape rename)
  | .print arguments => .print (Node.shapes rename arguments)
  | .block statements => .block (Node.shapes rename statements)
  | .giveBack value => .giveBack (value.shape rename)
  | .body statement => .body (statement.shape rename)
  | .ifThen condition consequent =>
    .ifThen (condition.shape rename) (consequent.shape rename)
  | .ifThenElse condition consequent alternative =>
    .ifThenElse (condition.shape rename) (consequent.shape rename) (alternative.shape rename)
  | .classDefinition cls => .classDefinition (rename cls)

/-- The shapes of trees. -/
def Node.shapes (rename : ClassId → ClassId) : List Node → List Node
  | [] => []
  | node :: nodes => node.shape rename :: Node.shapes rename nodes

end

/-- One tree is another up to the numbers of its classes and the origins of its
literals. -/
def Node.Mirrors (rename : ClassId → ClassId) (copy original : Node) : Prop :=
  copy.shape id = original.shape rename

/-- The trees of one list mirror those of another, one by one. -/
def Node.MirrorsAll (rename : ClassId → ClassId) (copies originals : List Node) : Prop :=
  Node.shapes id copies = Node.shapes rename originals

/-- A method with its tree reduced to its shape. -/
def Method.shape (rename : ClassId → ClassId) (method : Method) : Method :=
  { method with body := method.body.shape rename }

/-- A class with its parent renumbered and its trees reduced to their shapes. -/
def ClassRecord.shape (rename : ClassId → ClassId) (record : ClassRecord) : ClassRecord :=
  ⟨record.name, record.parent.map rename, record.methods.map (Method.shape rename)⟩

namespace Node

variable {rename : ClassId → ClassId}

theorem MirrorsAll.cons {copy original : Node} {copies originals : List Node}
    (h : copy.Mirrors rename original) (hall : MirrorsAll rename copies originals) :
    MirrorsAll rename (copy :: copies) (original :: originals) := by
  simp only [MirrorsAll, shapes]
  rw [h, hall]

theorem MirrorsAll.eq_nil {copies : List Node} (h : MirrorsAll rename copies []) :
    copies = [] := by
  cases copies with
  | nil => rfl
  | cons copy copies => cases h

theorem MirrorsAll.of_cons {copies originals : List Node} {original : Node}
    (h : MirrorsAll rename copies (original :: originals)) :
    ∃ copy others, copies = copy :: others ∧ copy.Mirrors rename original ∧
      MirrorsAll rename others originals := by
  cases copies with
  | nil => cases h
  | cons copy copies =>
      simp only [MirrorsAll, shapes, List.cons.injEq] at h
      exact ⟨copy, copies, rfl, h.1, h.2⟩

end Node

/-! ## Class tables -/

namespace Classes

/-- Classes of the same names and parents whose methods have the same names, the same parameters
and bodies of one shape. -/
def Mirrors (classes others : Classes) : Prop :=
  classes.records.toList.map (ClassRecord.shape id) =
    others.records.toList.map (ClassRecord.shape id)

variable {classes others : Classes}

theorem Mirrors.count_eq (h : classes.Mirrors others) : classes.count = others.count := by
  have hlength := congrArg List.length h
  simpa only [List.length_map, Array.length_toList, count] using hlength

theorem Mirrors.get? (h : classes.Mirrors others) (cls : ClassId) :
    Option.Rel (fun record twin => record.shape id = twin.shape id) (classes.get? cls)
      (others.get? cls) := by
  have hrecords : (classes.get? cls).map (ClassRecord.shape id) =
      (others.get? cls).map (ClassRecord.shape id) := by
    have hat := congrArg (·[cls]?) h
    simpa only [List.getElem?_map, Array.getElem?_toList, Classes.get?] using hat
  generalize classes.get? cls = one, others.get? cls = two at hrecords ⊢
  cases one <;> cases two <;> simp only [Option.map_none, Option.map_some, reduceCtorEq,
    Option.some.injEq] at hrecords
  · exact .none
  · exact .some hrecords

end Classes

end Offside
