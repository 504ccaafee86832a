import Offside.Grammar.Statement
import Offside.Proofs.Grammar.Phrase

/-!
# Derivations of statements

The grammar of statements, with the tree that every derivation stands for and the
classes that it makes.  A `Clause` is a nonterminal together with what it means.

Which tokens derive from a clause depends on the classes that are known before it, and
a class is known from its header on.  So `Composes known clause tokens made after` says
that the tokens derive from the clause where these classes are known, that the derivation
makes the classes `made`, in the order of their headers, and what is known after it.

Classes are numbered in the order of their headers.  A class whose header names a
parent that does not exist has none.
-/

namespace Offside

/-! ## The class table -/

namespace Classes

theorem length_toList_records (classes : Classes) : classes.records.toList.length = classes.count :=
  Array.length_toList

@[simp] theorem toList_records_declare (classes : Classes) (name : String)
    (parent : Option ClassId) :
    (classes.declare name parent).records.toList =
      classes.records.toList ++ [⟨name, parent.filter (· < classes.count), []⟩] :=
  Array.toList_push

/-- A method is added to one class, wherever it is. -/
theorem toList_records_define {classes : Classes} {front behind : List ClassRecord}
    {record : ClassRecord} {cls : ClassId} (method : Method) (hcls : front.length = cls)
    (h : classes.records.toList = front ++ record :: behind) :
    (classes.define cls method).records.toList =
      front ++ { record with methods := record.methods ++ [method] } :: behind := by
  subst hcls
  have hfront : front.length < (front ++ record :: behind).length := by simp
  rw [define, Array.toList_modify, h, List.modify_eq_take_cons_drop hfront]
  simp

end Classes

namespace Statement

open Expression (Derives dottedTokens)

/-! ## What is known -/

/-- The classes that are known at some place of a source. -/
structure Known where
  /-- The classes that names mean. -/
  names : Bindings ClassId
  /-- How many classes there are. -/
  count : Nat

/-- What is known when so much is declared. -/
def Known.of (declared : Declared) : Known :=
  ⟨declared.names, declared.classes.count⟩

/-- Where one class more is known. -/
def Known.declare (known : Known) (name : String) : Known :=
  ⟨known.names.set name known.count, known.count + 1⟩

/-- The parent of a class whose header names this one: a class that does not exist is no
parent. -/
def Known.parent (known : Known) (named : Option ClassId) : Option ClassId :=
  named.filter (· < known.count)

/-! ## Clauses -/

/-- A nonterminal of the grammar with its meaning. -/
inductive Clause
  /-- A statement, inside a method or not. -/
  | statement (inMethod : Bool) (node : Node)
  /-- Any number of statements. -/
  | statements (inMethod : Bool) (nodes : List Node)
  /-- The end of a line and an indented block. -/
  | suite (inMethod : Bool) (node : Node)
  | method (method : Method)
  /-- Any number of methods. -/
  | methods (methods : List Method)

/-- The tokens of the parameters of a method. -/
def parameterTokens : List String → List Token
  | [] => []
  | first :: others =>
    .identifier first :: others.flatMap fun name => [.symbol ',', .identifier name]

/-- The tokens that name the parent of a class. -/
inductive Inherits (names : Bindings ClassId) : Option ClassId → List Token → Prop
  | root : Inherits names none []
  | child {name : String} {cls : ClassId} (h : names.get? name = some cls) :
      Inherits names (some cls) [.symbol '(', .identifier name, .symbol ')']

/-- The tokens that derive from a statement without the end of its line. -/
inductive Simple (names : Bindings ClassId) : Bool → Node → List Token → Prop
  | giveBack {value : Node} {tokens : List Token}
      (h : Derives names (.operand .test value) tokens) :
      Simple names true (.giveBack value) (.keyword .returnWord :: tokens)
  | print (inMethod : Bool) {values : List Node} {tokens : List Token}
      (h : Derives names (.arguments values) tokens) :
      Simple names inMethod (.print values) (.keyword .printWord :: tokens)
  | assignment (inMethod : Bool) (name : String) (fields : List String) {value : Node}
      {tokens : List Token} (h : Derives names (.operand .test value) tokens) :
      Simple names inMethod (assignment name fields value)
        (dottedTokens name fields ++ .symbol '=' :: tokens)
  | expression (inMethod : Bool) {node : Node} {tokens : List Token}
      (h : Derives names (.operand .test node) tokens) : Simple names inMethod node tokens

/-- The tokens that derive from a clause. -/
inductive Composes : Known → Clause → List Token → List ClassRecord → Known → Prop
  | simple {known : Known} {inMethod : Bool} {node : Node} {tokens : List Token}
      (h : Simple known.names inMethod node tokens) :
      Composes known (.statement inMethod node) (tokens ++ [.newline]) [] known
  | ifThen {known after : Known} {inMethod : Bool} {condition consequent : Node}
      {tokens more : List Token} {made : List ClassRecord}
      (hcondition : Derives known.names (.operand .test condition) tokens)
      (hconsequent : Composes known (.suite inMethod consequent) more made after) :
      Composes known (.statement inMethod (.ifThen condition consequent))
        (.keyword .ifWord :: tokens ++ .symbol ':' :: more) made after
  | ifThenElse {known between after : Known} {inMethod : Bool}
      {condition consequent alternative : Node} {tokens more last : List Token}
      {made madeAfter : List ClassRecord}
      (hcondition : Derives known.names (.operand .test condition) tokens)
      (hconsequent : Composes known (.suite inMethod consequent) more made between)
      (halternative : Composes between (.suite inMethod alternative) last madeAfter after) :
      Composes known (.statement inMethod (.ifThenElse condition consequent alternative))
        (.keyword .ifWord :: tokens ++ .symbol ':' :: more ++
          .keyword .elseWord :: .symbol ':' :: last) (made ++ madeAfter) after
  | classDefinition {known after : Known} (inMethod : Bool) {name : String}
      {parent : Option ClassId} {header tokens : List Token} {methods : List Method}
      {made : List ClassRecord} (hparent : Inherits known.names parent header)
      (hmethods : Composes (known.declare name) (.methods methods) tokens made after)
      (hsome : methods ≠ []) :
      Composes known (.statement inMethod (.classDefinition known.count))
        (.keyword .classWord :: .identifier name :: header ++
          .symbol ':' :: .newline :: .indent :: tokens ++ [.dedent])
        (⟨name, known.parent parent, methods⟩ :: made) after
  | suite {known after : Known} {inMethod : Bool} {nodes : List Node} {tokens : List Token}
      {made : List ClassRecord}
      (h : Composes known (.statements inMethod nodes) tokens made after) (hsome : nodes ≠ []) :
      Composes known (.suite inMethod (.block nodes)) (.newline :: .indent :: tokens ++ [.dedent])
        made after
  | statementsEnd (known : Known) (inMethod : Bool) :
      Composes known (.statements inMethod []) [] [] known
  | statementsMore {known between after : Known} {inMethod : Bool} {first : Node}
      {others : List Node} {tokens more : List Token} {made madeAfter : List ClassRecord}
      (hfirst : Composes known (.statement inMethod first) tokens made between)
      (hothers : Composes between (.statements inMethod others) more madeAfter after) :
      Composes known (.statements inMethod (first :: others)) (tokens ++ more)
        (made ++ madeAfter) after
  | method {known after : Known} {name : String} {names : List String} {block : Node}
      {tokens : List Token} {made : List ClassRecord}
      (h : Composes known (.suite true block) tokens made after) :
      Composes known (.method ⟨name, withoutSelf names, .body block⟩)
        (.keyword .defWord :: .identifier name :: .symbol '(' :: parameterTokens names ++
          .symbol ')' :: .symbol ':' :: tokens) made after
  | methodsEnd (known : Known) : Composes known (.methods []) [] [] known
  | methodsMore {known between after : Known} {first : Method} {others : List Method}
      {tokens more : List Token} {made madeAfter : List ClassRecord}
      (hfirst : Composes known (.method first) tokens made between)
      (hothers : Composes between (.methods others) more madeAfter after) :
      Composes known (.methods (first :: others)) (tokens ++ more) (made ++ madeAfter) after

end Statement

end Offside
