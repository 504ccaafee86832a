import Offside.Proofs.Grammar.Clause
import Offside.Proofs.Tree.Expression

/-!
# Trees that a text can have

`Writable known clause made after` says, without a word about tokens, which trees a text
can have: it follows the productions of the grammar on the tree and the class records
alone.  Whatever derives has such a tree (`Composes.writable`).

Classes are counted in the order of their headers.  So the node of a class carries the
number of classes before it, the record of the class comes first among those it makes,
and the records of the classes inside its methods follow.
-/

namespace Offside

namespace Expression

/-- A class that a call can name: `str` names none. -/
def Callable (names : Bindings ClassId) (cls : ClassId) : Prop :=
  ∃ name, name ≠ strName ∧ names.get? name = some cls

/-! ## What joins, applies and calls is an expression -/

variable {names : Bindings ClassId} {makes : ClassId → Prop}

theorem isExpression_join {level : Level} {operator : Token} {join : Node → Node → Node}
    {left right : Node} (h : level.joins operator = some join) (hleft : left.IsExpression makes)
    (hright : right.IsExpression makes) : (join left right).IsExpression makes := by
  rcases joins_cases h with ⟨-, -, rfl⟩ | ⟨-, -, rfl⟩ | ⟨-, -, rfl⟩ | ⟨-, -, rfl⟩ |
    ⟨-, -, rfl⟩ | ⟨-, -, rfl⟩ <;> exact ⟨hleft, hright⟩

theorem isExpression_literal {origin : Origin} {token : Token} {node : Node}
    (h : literal? origin token = some node) : node.IsExpression makes := by
  unfold literal? at h
  split at h <;> cases h <;> first | trivial | exact Int.natCast_nonneg _

theorem isExpression_applied {name : String} {fields : List String} {values : List Node}
    {call : Node} (h : applied? names name fields values = some call)
    (hvalues : Node.AreExpressions (Callable names) values) :
    call.IsReceiver ∧ call.IsExpression (Callable names) := by
  unfold applied? at h
  split at h
  · cases h
    exact ⟨trivial, trivial, trivial, hvalues⟩
  · split at h
    · split at h <;> cases h
      exact ⟨trivial, hvalues.1⟩
    · next hname =>
        obtain ⟨cls, hcls, rfl⟩ := Option.map_eq_some_iff.mp h
        exact ⟨trivial, ⟨name, hname, hcls⟩, hvalues⟩

/-- What a phrase says about the nodes in it. -/
def Phrase.IsExpression (makes : ClassId → Prop) : Phrase → Prop
  | operand _ node => node.IsExpression makes
  | tail _ left whole => left.IsExpression makes → whole.IsExpression makes
  | arguments nodes | moreArguments nodes => Node.AreExpressions makes nodes
  | calls receiver whole =>
    receiver.IsReceiver ∧ receiver.IsExpression makes → whole.IsExpression makes

/-- What derives as an expression is one. -/
theorem Derives.isExpression {phrase : Phrase} {tokens : List Token}
    (h : Derives names phrase tokens) : phrase.IsExpression (Callable names) := by
  induction h with
  | chain hlevel hfirst hmore ihfirst ihmore => exact ihmore ihfirst
  | tailEnd => exact id
  | tailMore hjoin hright hmore ihright ihmore =>
      intro hleft
      exact ihmore (isExpression_join hjoin hleft ihright)
  | negation h ih => exact ih
  | comparison hleft hfound hright ihleft ihright => exact ⟨ihleft, ihright⟩
  | sign origin h ih => exact ⟨Int.le_refl 0, ih⟩
  | literal h => exact isExpression_literal h
  | parenthesized h ih => exact ih
  | dotted => trivial
  | application hvalues hcall hmore ihvalues ihmore =>
      exact ihmore (isExpression_applied hcall ihvalues)
  | argumentsEnd => trivial
  | argumentsMore hfirst hothers ihfirst ihothers => exact ⟨ihfirst, ihothers⟩
  | moreArgumentsEnd => trivial
  | moreArgumentsMore hfirst hothers ihfirst ihothers => exact ⟨ihfirst, ihothers⟩
  | callsEnd => exact And.right
  | callsMore hvalues hmore ihvalues ihmore =>
      intro hreceiver
      exact ihmore ⟨trivial, hreceiver.1, hreceiver.2, ihvalues⟩

end Expression

namespace Statement

open Expression (Callable)

/-- The clauses that a text can have, with the classes that they make. -/
inductive Writable : Known → Clause → List ClassRecord → Known → Prop
  | giveBack {known : Known} {value : Node} (h : value.IsExpression (Callable known.names)) :
      Writable known (.statement true (.giveBack value)) [] known
  | print {known : Known} (inMethod : Bool) {values : List Node}
      (h : Node.AreExpressions (Callable known.names) values) :
      Writable known (.statement inMethod (.print values)) [] known
  | assign {known : Known} (inMethod : Bool) (name : String) {value : Node}
      (h : value.IsExpression (Callable known.names)) :
      Writable known (.statement inMethod (.assign name value)) [] known
  | assignField {known : Known} (inMethod : Bool) (name : String) (fields : List String)
      (field : String) {value : Node} (h : value.IsExpression (Callable known.names)) :
      Writable known (.statement inMethod (.assignField (.variable name fields) field value)) []
        known
  | expression {known : Known} (inMethod : Bool) {node : Node}
      (h : node.IsExpression (Callable known.names)) :
      Writable known (.statement inMethod node) [] known
  | ifThen {known after : Known} {inMethod : Bool} {condition consequent : Node}
      {made : List ClassRecord} (hcondition : condition.IsExpression (Callable known.names))
      (hconsequent : Writable known (.suite inMethod consequent) made after) :
      Writable known (.statement inMethod (.ifThen condition consequent)) made after
  | ifThenElse {known between after : Known} {inMethod : Bool}
      {condition consequent alternative : Node} {made madeAfter : List ClassRecord}
      (hcondition : condition.IsExpression (Callable known.names))
      (hconsequent : Writable known (.suite inMethod consequent) made between)
      (halternative : Writable between (.suite inMethod alternative) madeAfter after) :
      Writable known (.statement inMethod (.ifThenElse condition consequent alternative))
        (made ++ madeAfter) after
  | classDefinition {known after : Known} (inMethod : Bool) {name : String}
      {parent : Option ClassId} {methods : List Method} {made : List ClassRecord}
      (hparent : ∀ cls, parent = some cls →
        cls < known.count ∧ ∃ named, known.names.get? named = some cls)
      (hmethods : Writable (known.declare name) (.methods methods) made after)
      (hsome : methods ≠ []) :
      Writable known (.statement inMethod (.classDefinition known.count))
        (⟨name, parent, methods⟩ :: made) after
  | suite {known after : Known} {inMethod : Bool} {nodes : List Node} {made : List ClassRecord}
      (h : Writable known (.statements inMethod nodes) made after) (hsome : nodes ≠ []) :
      Writable known (.suite inMethod (.block nodes)) made after
  | statementsEnd (known : Known) (inMethod : Bool) :
      Writable known (.statements inMethod []) [] known
  | statementsMore {known between after : Known} {inMethod : Bool} {first : Node}
      {others : List Node} {made madeAfter : List ClassRecord}
      (hfirst : Writable known (.statement inMethod first) made between)
      (hothers : Writable between (.statements inMethod others) madeAfter after) :
      Writable known (.statements inMethod (first :: others)) (made ++ madeAfter) after
  | method {known after : Known} (name : String) (parameters : List String) {block : Node}
      {made : List ClassRecord} (h : Writable known (.suite true block) made after) :
      Writable known (.method ⟨name, parameters, .body block⟩) made after
  | methodsEnd (known : Known) : Writable known (.methods []) [] known
  | methodsMore {known between after : Known} {first : Method} {others : List Method}
      {made madeAfter : List ClassRecord} (hfirst : Writable known (.method first) made between)
      (hothers : Writable between (.methods others) madeAfter after) :
      Writable known (.methods (first :: others)) (made ++ madeAfter) after

/-! ## What derives has such a tree -/

theorem Simple.writable {known : Known} {inMethod : Bool} {node : Node} {tokens : List Token}
    (h : Simple known.names inMethod node tokens) :
    Writable known (.statement inMethod node) [] known := by
  cases h with
  | giveBack hvalue => exact .giveBack hvalue.isExpression
  | print _ hvalues => exact .print inMethod hvalues.isExpression
  | assignment _ name fields hvalue =>
      unfold Statement.assignment
      split
      · exact .assign inMethod name hvalue.isExpression
      · next field _ => exact .assignField inMethod name fields.dropLast field hvalue.isExpression
  | expression _ hnode => exact .expression inMethod hnode.isExpression

theorem Inherits.parent {known : Known} {named : Option ClassId} {header : List Token}
    (h : Inherits known.names named header) {cls : ClassId} (hcls : known.parent named = some cls) :
    cls < known.count ∧ ∃ name, known.names.get? name = some cls := by
  obtain ⟨hnamed, hlt⟩ := Option.filter_eq_some_iff.mp hcls
  cases h with
  | root => cases hnamed
  | child hname =>
      cases hnamed
      exact ⟨of_decide_eq_true hlt, _, hname⟩

/-- What derives has a tree that a text can have. -/
theorem Composes.writable {known after : Known} {clause : Clause} {tokens : List Token}
    {made : List ClassRecord} (h : Composes known clause tokens made after) :
    Writable known clause made after := by
  induction h with
  | simple h => exact h.writable
  | ifThen hcondition _ ih => exact .ifThen hcondition.isExpression ih
  | ifThenElse hcondition _ _ ihconsequent ihalternative =>
      exact .ifThenElse hcondition.isExpression ihconsequent ihalternative
  | classDefinition inMethod hparent _ hsome ih =>
      exact .classDefinition inMethod (fun cls hcls => hparent.parent hcls) ih hsome
  | suite _ hsome ih => exact .suite ih hsome
  | statementsEnd known inMethod => exact .statementsEnd known inMethod
  | statementsMore _ _ ihfirst ihothers => exact .statementsMore ihfirst ihothers
  | method _ ih => exact .method _ _ ih
  | methodsEnd known => exact .methodsEnd known
  | methodsMore _ _ ihfirst ihothers => exact .methodsMore ihfirst ihothers

/-- Every class that is made is counted. -/
theorem Writable.count_eq {known after : Known} {clause : Clause} {made : List ClassRecord}
    (h : Writable known clause made after) : after.count = known.count + made.length := by
  induction h with
  | classDefinition _ _ _ _ ih => simp only [ih, Known.declare, List.length_cons]; omega
  | ifThen _ _ ih => exact ih
  | ifThenElse _ _ _ ihfirst ihothers =>
      simp only [ihothers, ihfirst, List.length_append, Nat.add_assoc]
  | statementsMore _ _ ihfirst ihothers =>
      simp only [ihothers, ihfirst, List.length_append, Nat.add_assoc]
  | methodsMore _ _ ihfirst ihothers =>
      simp only [ihothers, ihfirst, List.length_append, Nat.add_assoc]
  | suite _ _ ih => exact ih
  | method _ _ _ ih => exact ih
  | _ => rfl

theorem Writable.count_le {known after : Known} {clause : Clause} {made : List ClassRecord}
    (h : Writable known clause made after) : known.count ≤ after.count := by
  rw [h.count_eq]
  exact Nat.le_add_right _ _

end Statement

end Offside
