import Offside.Proofs.Grammar.Clause

/-!
# The grammar

The grammar of programs, production by production and without trees:

    program    := statement* eof
    statement  := class_def | if_stmt | simple newline
    class_def  := 'class' Id ['(' Id ')'] ':' newline indent method+ dedent
    method     := 'def' Id '(' [Id (',' Id)*] ')' ':' suite
    if_stmt    := 'if' test ':' suite ['else' ':' suite]
    suite      := newline indent statement+ dedent
    simple     := 'return' test | 'print' [test (',' test)*] | dotted '=' test | test
    test       := and_test ('or' and_test)*
    and_test   := not_test ('and' not_test)*
    not_test   := 'not' not_test | comparison
    comparison := expr [('==' | '!=' | '<' | '>' | '<=' | '>=') expr]
    expr       := term (('+' | '-') term)*
    term       := unary (('*' | '/') unary)*
    unary      := '-' unary | primary
    primary    := Number | String | 'True' | 'False' | 'None' | '(' test ')'
                | 'str' '(' test ')' | ClassName '(' args ')'
                | dotted ['(' args ')'] ('.' Id '(' args ')')*

What is not free of context are the names of classes.  The names that are known grow
from left to right, by the header of every class, and a relation for a nonterminal has
those before and those behind its tokens.  A name that is called alone has to be known,
and so has the parent of a class; `str` is called with one argument; and `return` stands
inside the suite of a method only.
-/

namespace Offside

/-! ## Expressions -/

namespace Expression

/-- A nonterminal of the grammar of expressions, or a part of its productions. -/
inductive Part
  /-- From `test` down to `primary`. -/
  | operand (level : Level)
  /-- The repeated part of a level. -/
  | more (level : Level)
  /-- So many arguments with commas between them. -/
  | args (count : Nat)
  /-- So many arguments, each after a comma. -/
  | moreArgs (count : Nat)
  /-- Calls of methods, each after a point. -/
  | calls

/-- The tokens that join the operands of a level. -/
def Level.operators : Level → List Token
  | test => [.keyword .orWord]
  | conjunct => [.keyword .andWord]
  | sum => [.symbol '+', .symbol '-']
  | product => [.symbol '*', .symbol '/']
  | negated | comparison | signed | primary => []

/-- The tokens that compare. -/
def comparisons : List Token :=
  [.operator .equal, .operator .notEqual, .symbol '<', .symbol '>', .operator .lessOrEqual,
    .operator .greaterOrEqual]

/-- The tokens that are operands by themselves. -/
inductive IsLiteral : Token → Prop
  | number (value : Nat) : IsLiteral (.number value)
  | string (content : String) : IsLiteral (.string content)
  | trueWord : IsLiteral (.keyword .trueWord)
  | falseWord : IsLiteral (.keyword .falseWord)
  | noneWord : IsLiteral (.keyword .noneWord)

/-- A dotted name may be called with so many arguments. -/
def MayCall (known : List String) (name : String) (fields : List String) (count : Nat) : Prop :=
  fields ≠ [] ∨ (name = "str" ∧ count = 1) ∨ (name ≠ "str" ∧ name ∈ known)

/-- The tokens that a nonterminal generates where these names of classes are known. -/
inductive Generates (known : List String) : Part → List Token → Prop
  | joined {level : Level} {tokens rest : List Token} (hlevel : level.operators ≠ [])
      (hfirst : Generates known (.operand level.next) tokens)
      (hmore : Generates known (.more level) rest) :
      Generates known (.operand level) (tokens ++ rest)
  | moreEnd (level : Level) : Generates known (.more level) []
  | moreOperand {level : Level} {operator : Token} {tokens rest : List Token}
      (hoperator : operator ∈ level.operators)
      (hoperand : Generates known (.operand level.next) tokens)
      (hmore : Generates known (.more level) rest) :
      Generates known (.more level) (operator :: tokens ++ rest)
  | negation {tokens : List Token} (h : Generates known (.operand .negated) tokens) :
      Generates known (.operand .negated) (.keyword .notWord :: tokens)
  | notNegated {tokens : List Token} (h : Generates known (.operand .comparison) tokens) :
      Generates known (.operand .negated) tokens
  | comparison {operator : Token} {tokens rest : List Token} (hoperator : operator ∈ comparisons)
      (hleft : Generates known (.operand .sum) tokens)
      (hright : Generates known (.operand .sum) rest) :
      Generates known (.operand .comparison) (tokens ++ operator :: rest)
  | notCompared {tokens : List Token} (h : Generates known (.operand .sum) tokens) :
      Generates known (.operand .comparison) tokens
  | sign {tokens : List Token} (h : Generates known (.operand .signed) tokens) :
      Generates known (.operand .signed) (.symbol '-' :: tokens)
  | notSigned {tokens : List Token} (h : Generates known (.operand .primary) tokens) :
      Generates known (.operand .signed) tokens
  | literal {token : Token} (h : IsLiteral token) : Generates known (.operand .primary) [token]
  | parenthesized {tokens : List Token} (h : Generates known (.operand .test) tokens) :
      Generates known (.operand .primary) (.symbol '(' :: tokens ++ [.symbol ')'])
  | str {tokens : List Token} (h : Generates known (.operand .test) tokens) :
      Generates known (.operand .primary)
        (.identifier "str" :: .symbol '(' :: tokens ++ [.symbol ')'])
  | className {name : String} {count : Nat} {tokens : List Token} (hname : name ≠ "str")
      (hknown : name ∈ known) (h : Generates known (.args count) tokens) :
      Generates known (.operand .primary)
        (.identifier name :: .symbol '(' :: tokens ++ [.symbol ')'])
  | dotted (name : String) (fields : List String) {rest : List Token}
      (hcalls : Generates known .calls rest) :
      Generates known (.operand .primary) (dottedTokens name fields ++ rest)
  | called {name : String} {fields : List String} {count : Nat} {tokens rest : List Token}
      (hname : MayCall known name fields count) (h : Generates known (.args count) tokens)
      (hcalls : Generates known .calls rest) :
      Generates known (.operand .primary)
        (dottedTokens name fields ++ .symbol '(' :: tokens ++ .symbol ')' :: rest)
  | argsEnd : Generates known (.args 0) []
  | argsMore {count : Nat} {tokens rest : List Token}
      (hfirst : Generates known (.operand .test) tokens)
      (hmore : Generates known (.moreArgs count) rest) :
      Generates known (.args (count + 1)) (tokens ++ rest)
  | moreArgsEnd : Generates known (.moreArgs 0) []
  | moreArgsMore {count : Nat} {tokens rest : List Token}
      (hfirst : Generates known (.operand .test) tokens)
      (hmore : Generates known (.moreArgs count) rest) :
      Generates known (.moreArgs (count + 1)) (.symbol ',' :: tokens ++ rest)
  | callsEnd : Generates known .calls []
  | callsMore {method : String} {count : Nat} {tokens rest : List Token}
      (h : Generates known (.args count) tokens) (hcalls : Generates known .calls rest) :
      Generates known .calls
        (.symbol '.' :: .identifier method :: .symbol '(' :: tokens ++ .symbol ')' :: rest)

end Expression

/-! ## Statements -/

namespace Statement

open Expression (dottedTokens)

/-- A nonterminal of the grammar of statements, or a part of its productions. -/
inductive Part
  | statement (inMethod : Bool)
  | statements (inMethod : Bool)
  | suite (inMethod : Bool)
  | method
  | methods

/-- The tokens that `simple` generates, inside a method or not. -/
inductive GeneratesSimple (known : List String) : Bool → List Token → Prop
  | giveBack {tokens : List Token} (h : Expression.Generates known (.operand .test) tokens) :
      GeneratesSimple known true (.keyword .returnWord :: tokens)
  | print (inMethod : Bool) {count : Nat} {tokens : List Token}
      (h : Expression.Generates known (.args count) tokens) :
      GeneratesSimple known inMethod (.keyword .printWord :: tokens)
  | assignment (inMethod : Bool) (name : String) (fields : List String) {tokens : List Token}
      (h : Expression.Generates known (.operand .test) tokens) :
      GeneratesSimple known inMethod (dottedTokens name fields ++ .symbol '=' :: tokens)
  | test (inMethod : Bool) {tokens : List Token}
      (h : Expression.Generates known (.operand .test) tokens) :
      GeneratesSimple known inMethod tokens

/-- The tokens that name the parent of a class, if it has one. -/
inductive GeneratesParent (known : List String) : List Token → Prop
  | none : GeneratesParent known []
  | some {name : String} (h : name ∈ known) :
      GeneratesParent known [.symbol '(', .identifier name, .symbol ')']

/-- The tokens that a nonterminal generates, with the names of classes that are known
before and behind them. -/
inductive Generates : List String → Part → List Token → List String → Prop
  | simple {known : List String} {inMethod : Bool} {tokens : List Token}
      (h : GeneratesSimple known inMethod tokens) :
      Generates known (.statement inMethod) (tokens ++ [.newline]) known
  | ifThen {known after : List String} {inMethod : Bool} {tokens rest : List Token}
      (hcondition : Expression.Generates known (.operand .test) tokens)
      (hsuite : Generates known (.suite inMethod) rest after) :
      Generates known (.statement inMethod) (.keyword .ifWord :: tokens ++ .symbol ':' :: rest)
        after
  | ifThenElse {known between after : List String} {inMethod : Bool}
      {tokens rest last : List Token}
      (hcondition : Expression.Generates known (.operand .test) tokens)
      (hsuite : Generates known (.suite inMethod) rest between)
      (hother : Generates between (.suite inMethod) last after) :
      Generates known (.statement inMethod)
        (.keyword .ifWord :: tokens ++ .symbol ':' :: rest ++
          .keyword .elseWord :: .symbol ':' :: last) after
  | classDefinition {known between after : List String} (inMethod : Bool) {name : String}
      {header tokens rest : List Token} (hparent : GeneratesParent known header)
      (hfirst : Generates (name :: known) .method tokens between)
      (hothers : Generates between .methods rest after) :
      Generates known (.statement inMethod)
        (.keyword .classWord :: .identifier name :: header ++
          .symbol ':' :: .newline :: .indent :: (tokens ++ rest) ++ [.dedent]) after
  | suite {known between after : List String} {inMethod : Bool} {tokens rest : List Token}
      (hfirst : Generates known (.statement inMethod) tokens between)
      (hothers : Generates between (.statements inMethod) rest after) :
      Generates known (.suite inMethod) (.newline :: .indent :: (tokens ++ rest) ++ [.dedent])
        after
  | statementsEnd (known : List String) (inMethod : Bool) :
      Generates known (.statements inMethod) [] known
  | statementsMore {known between after : List String} {inMethod : Bool}
      {tokens rest : List Token} (hfirst : Generates known (.statement inMethod) tokens between)
      (hothers : Generates between (.statements inMethod) rest after) :
      Generates known (.statements inMethod) (tokens ++ rest) after
  | method {known after : List String} {name : String} {parameters : List String}
      {tokens : List Token} (h : Generates known (.suite true) tokens after) :
      Generates known .method
        (.keyword .defWord :: .identifier name :: .symbol '(' :: parameterTokens parameters ++
          .symbol ')' :: .symbol ':' :: tokens) after
  | methodsEnd (known : List String) : Generates known .methods [] known
  | methodsMore {known between after : List String} {tokens rest : List Token}
      (hfirst : Generates known .method tokens between)
      (hothers : Generates between .methods rest after) :
      Generates known .methods (tokens ++ rest) after

end Statement

/-- The tokens that `program` generates where these names of classes are known at first. -/
inductive GeneratesProgram (known : List String) : List Token → Prop
  | statements {after : List String} {tokens : List Token}
      (h : Statement.Generates known (.statements false) tokens after) :
      GeneratesProgram known (tokens ++ [.eof])

end Offside
