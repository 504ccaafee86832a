import Offside.Tree.Node

/-!
# Expressions among the nodes

Expressions and statements are one type of nodes.  `Node.IsExpression makes node` says
that a node is an expression as a text can write it: its parts are expressions, its number
literals are not negative, every class that it makes instances of satisfies `makes`, and
what it calls a method of is a variable, a new instance, the text of a value, or what
another call gives.
-/

namespace Offside.Node

/-- An expression that a call of a method may follow without parentheses. -/
def IsReceiver : Node → Prop
  | .variable .. | .stringify _ | .call .. | .create .. => True
  | _ => False

mutual

/-- An expression that makes instances of classes of this kind only. -/
def IsExpression (makes : ClassId → Prop) : Node → Prop
  | .number _ value => 0 ≤ value
  | .text .. | .flag .. | .absent | .variable .. => True
  | .arithmetic _ left right | .connective _ left right | .comparison _ left right =>
    left.IsExpression makes ∧ right.IsExpression makes
  | .negation operand | .stringify operand => operand.IsExpression makes
  | .call receiver _ arguments =>
    receiver.IsReceiver ∧ receiver.IsExpression makes ∧ AreExpressions makes arguments
  | .create cls arguments => makes cls ∧ AreExpressions makes arguments
  | _ => False

/-- Nodes all of which are expressions. -/
def AreExpressions (makes : ClassId → Prop) : List Node → Prop
  | [] => True
  | node :: nodes => node.IsExpression makes ∧ AreExpressions makes nodes

end

variable {makes others : ClassId → Prop}

theorem areExpressions_iff {nodes : List Node} :
    AreExpressions makes nodes ↔ ∀ node ∈ nodes, node.IsExpression makes := by
  induction nodes with
  | nil => simp [AreExpressions]
  | cons node nodes ih => simp [AreExpressions, ih]

mutual

theorem IsExpression.mono (himp : ∀ cls, makes cls → others cls) {node : Node}
    (h : node.IsExpression makes) : node.IsExpression others := by
  match node with
  | .number .. | .text .. | .flag .. | .absent | .variable .. => exact h
  | .arithmetic .. | .connective .. | .comparison .. => exact ⟨h.1.mono himp, h.2.mono himp⟩
  | .negation operand | .stringify operand =>
      have hoperand : operand.IsExpression makes := h
      exact hoperand.mono himp
  | .call .. => exact ⟨h.1, h.2.1.mono himp, h.2.2.mono himp⟩
  | .create cls _ => exact ⟨himp cls h.1, h.2.mono himp⟩

theorem AreExpressions.mono (himp : ∀ cls, makes cls → others cls) {nodes : List Node}
    (h : AreExpressions makes nodes) : AreExpressions others nodes := by
  match nodes with
  | [] => trivial
  | _ :: _ => exact ⟨h.1.mono himp, h.2.mono himp⟩

end

end Offside.Node
