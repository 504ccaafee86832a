import Offside.Tree.Classes
import Offside.Proofs.Tree.Expression

/-!
# Statements among the nodes

`Node.IsStatement` says that a node may run as a statement where there are so many
classes: whatever stands where a value is asked for is an expression, and a statement
that returns stands inside a method.  A block and the body of a method count as
statements too, and so does every expression.

`Node.operands` lists the parts of a node that are asked for a value, and `Node.branches`
those that run as statements.  Whatever is a part of a statement is a statement, and its
operands are expressions (`PartOf.operands_isExpression`).
-/

namespace Offside

namespace Node

mutual

/-- A node that may run as a statement, inside a method or not. -/
def IsStatement (count : Nat) : Node → Bool → Prop
  | .giveBack value, inMethod => inMethod = true ∧ value.IsExpression (· < count)
  | .print arguments, _ => AreExpressions (· < count) arguments
  | .assign _ value, _ => value.IsExpression (· < count)
  | .assignField object _ value, _ =>
    object.IsExpression (· < count) ∧ value.IsExpression (· < count)
  | .block statements, inMethod => AreStatements count statements inMethod
  | .body inner, _ => inner.IsStatement count true
  | .ifThen condition consequent, inMethod =>
    condition.IsExpression (· < count) ∧ consequent.IsStatement count inMethod
  | .ifThenElse condition consequent alternative, inMethod =>
    condition.IsExpression (· < count) ∧ consequent.IsStatement count inMethod ∧
      alternative.IsStatement count inMethod
  | .classDefinition cls, _ => cls < count
  | node, _ => node.IsExpression (· < count)

/-- Nodes all of which may run as statements. -/
def AreStatements (count : Nat) : List Node → Bool → Prop
  | [], _ => True
  | node :: nodes, inMethod => node.IsStatement count inMethod ∧ AreStatements count nodes inMethod

end

variable {count larger : Nat} {inMethod : Bool}

/-- An expression may run as a statement. -/
theorem IsExpression.isStatement {node : Node} (h : node.IsExpression (· < count))
    (inMethod : Bool) : node.IsStatement count inMethod := by
  cases node <;> first | exact h | exact False.elim h

theorem areStatements_iff {nodes : List Node} :
    AreStatements count nodes inMethod ↔ ∀ node ∈ nodes, node.IsStatement count inMethod := by
  induction nodes with
  | nil => simp [AreStatements]
  | cons node nodes ih => simp [AreStatements, ih]

mutual

/-- More classes do no harm. -/
theorem IsStatement.mono (hle : count ≤ larger) {node : Node} {inMethod : Bool}
    (h : node.IsStatement count inMethod) : node.IsStatement larger inMethod := by
  have hmono {part : Node} (hpart : part.IsExpression (· < count)) :
      part.IsExpression (· < larger) :=
    hpart.mono fun _ hcls => Nat.lt_of_lt_of_le hcls hle
  match node with
  | .giveBack value => exact ⟨h.1, hmono h.2⟩
  | .print arguments => exact Node.AreExpressions.mono (fun _ hcls => Nat.lt_of_lt_of_le hcls hle) h
  | .assign name value => exact hmono h
  | .assignField object field value => exact ⟨hmono h.1, hmono h.2⟩
  | .block statements =>
      have hstatements : AreStatements count statements inMethod := h
      exact hstatements.mono hle
  | .body inner =>
      have hinner : inner.IsStatement count true := h
      exact hinner.mono hle
  | .ifThen condition consequent => exact ⟨hmono h.1, h.2.mono hle⟩
  | .ifThenElse condition consequent alternative =>
      exact ⟨hmono h.1, h.2.1.mono hle, h.2.2.mono hle⟩
  | .classDefinition cls => exact Nat.lt_of_lt_of_le h hle
  | .number .. | .text .. | .flag .. | .absent | .variable .. | .arithmetic .. | .connective ..
  | .negation _ | .comparison .. | .stringify _ | .call .. | .create .. => exact hmono h

theorem AreStatements.mono (hle : count ≤ larger) {nodes : List Node} {inMethod : Bool}
    (h : AreStatements count nodes inMethod) : AreStatements larger nodes inMethod := by
  match nodes with
  | [] => trivial
  | _ :: _ => exact ⟨h.1.mono hle, h.2.mono hle⟩

end

/-! ## Parts -/

/-- The parts of a node that are asked for a value. -/
def operands : Node → List Node
  | .arithmetic _ left right | .connective _ left right | .comparison _ left right =>
    [left, right]
  | .negation operand | .stringify operand | .giveBack operand | .assign _ operand => [operand]
  | .call receiver _ arguments => receiver :: arguments
  | .create _ arguments | .print arguments => arguments
  | .assignField object _ value => [object, value]
  | .ifThen condition _ | .ifThenElse condition _ _ => [condition]
  | .number .. | .text .. | .flag .. | .absent | .variable .. | .block _ | .body _
  | .classDefinition _ => []

/-- The parts of a node that run as statements. -/
def branches : Node → List Node
  | .block statements => statements
  | .body inner => [inner]
  | .ifThen _ consequent => [consequent]
  | .ifThenElse _ consequent alternative => [consequent, alternative]
  | _ => []

/-- One node is part of another, or the other itself. -/
inductive PartOf (node : Node) : Node → Prop
  | self : PartOf node node
  | operand {part whole : Node} (h : PartOf node part) (hpart : part ∈ whole.operands) :
      PartOf node whole
  | branch {part whole : Node} (h : PartOf node part) (hpart : part ∈ whole.branches) :
      PartOf node whole

/-- Whatever a statement asks for a value is an expression. -/
theorem IsStatement.operands_isExpression {node operand : Node}
    (h : node.IsStatement count inMethod) (hoperand : operand ∈ node.operands) :
    operand.IsExpression (· < count) := by
  cases node with
  | arithmetic | connective | comparison | assignField =>
      rcases List.mem_cons.mp hoperand with rfl | hright
      · exact h.1
      · rw [List.mem_singleton.mp hright]
        exact h.2
  | negation | stringify | assign =>
      rw [List.mem_singleton.mp hoperand]
      exact h
  | giveBack =>
      rw [List.mem_singleton.mp hoperand]
      exact h.2
  | ifThen | ifThenElse =>
      rw [List.mem_singleton.mp hoperand]
      exact h.1
  | call =>
      rcases List.mem_cons.mp hoperand with rfl | hargument
      · exact h.2.1
      · exact areExpressions_iff.mp h.2.2 operand hargument
  | create => exact areExpressions_iff.mp h.2 operand hoperand
  | print => exact areExpressions_iff.mp h operand hoperand
  | _ => cases hoperand

/-- Whatever runs inside a statement is a statement. -/
theorem IsStatement.branches_isStatement {node branch : Node}
    (h : node.IsStatement count inMethod) (hbranch : branch ∈ node.branches) :
    ∃ inMethod, branch.IsStatement count inMethod := by
  cases node with
  | block => exact ⟨inMethod, areStatements_iff.mp h branch hbranch⟩
  | body =>
      rw [List.mem_singleton.mp hbranch]
      exact ⟨true, h⟩
  | ifThen =>
      rw [List.mem_singleton.mp hbranch]
      exact ⟨inMethod, h.2⟩
  | ifThenElse =>
      rcases List.mem_cons.mp hbranch with rfl | hother
      · exact ⟨inMethod, h.2.1⟩
      · rw [List.mem_singleton.mp hother]
        exact ⟨inMethod, h.2.2⟩
  | _ => cases hbranch

theorem PartOf.isStatement {node whole : Node} (hpart : node.PartOf whole) {inMethod : Bool}
    (h : whole.IsStatement count inMethod) : ∃ inMethod, node.IsStatement count inMethod := by
  induction hpart generalizing inMethod with
  | self => exact ⟨inMethod, h⟩
  | operand _ hpart ih => exact ih ((h.operands_isExpression hpart).isStatement false)
  | branch _ hpart ih =>
      obtain ⟨inBranch, hbranch⟩ := h.branches_isStatement hpart
      exact ih hbranch

/-- Whatever a part of a statement asks for a value is an expression. -/
theorem PartOf.operands_isExpression {node whole operand : Node} (hpart : node.PartOf whole)
    (h : whole.IsStatement count inMethod) (hoperand : operand ∈ node.operands) :
    operand.IsExpression (· < count) := by
  obtain ⟨inPart, hnode⟩ := hpart.isStatement h
  exact hnode.operands_isExpression hoperand

end Node

/-! ## Class tables -/

/-- A method whose body takes in what its block returns. -/
def Method.IsSound (count : Nat) (method : Method) : Prop :=
  ∃ statements, method.body = .body (.block statements) ∧
    Node.AreStatements count statements true

theorem Method.IsSound.mono {count larger : Nat} {method : Method} (h : method.IsSound count)
    (hle : count ≤ larger) : method.IsSound larger := by
  obtain ⟨statements, hbody, hstatements⟩ := h
  exact ⟨statements, hbody, hstatements.mono hle⟩

theorem Method.IsSound.body_isStatement {count : Nat} {method : Method} (h : method.IsSound count) :
    method.body.IsStatement count false := by
  obtain ⟨statements, hbody, hstatements⟩ := h
  rw [hbody]
  exact hstatements

/-- A class table all of whose methods are sound. -/
def Classes.IsSound (classes : Classes) : Prop :=
  ∀ id record, classes.get? id = some record →
    ∀ method ∈ record.methods, method.IsSound classes.count

/-- The method that a name means is one that some class has. -/
theorem Classes.exists_of_resolve {classes : Classes} {id : ClassId} {name : String}
    {method : Method} (hmethod : classes.resolve id name = some method) :
    ∃ owner record, classes.get? owner = some record ∧ method ∈ record.methods := by
  induction id using Nat.strongRecOn with
  | ind id ih =>
      rw [Classes.resolve_eq] at hmethod
      obtain ⟨record, hrecord, hfound⟩ := Option.bind_eq_some_iff.mp hmethod
      rcases Option.or_eq_some_iff.mp hfound with hown | ⟨-, hinherited⟩
      · exact ⟨id, record, hrecord, List.mem_of_find?_eq_some hown⟩
      · obtain ⟨parent, hparent, hresolve⟩ := Option.bind_eq_some_iff.mp hinherited
        exact ih parent (classes.ordered id record hrecord parent hparent) hresolve

/-- The method that a name means is sound. -/
theorem Classes.IsSound.resolve {classes : Classes} (h : classes.IsSound) {id : ClassId}
    {name : String} {method : Method} (hmethod : classes.resolve id name = some method) :
    method.IsSound classes.count := by
  obtain ⟨owner, record, hrecord, hmem⟩ := Classes.exists_of_resolve hmethod
  exact h owner record hrecord method hmem

end Offside
