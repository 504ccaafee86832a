import Offside.Proofs.Grammar.Header
import Offside.Proofs.Grammar.Runnable

/-!
# Class names are resolved where they stand

`Resolves base front clause tokens made` is the grammar of statements once more, for tokens
that stand behind `front`.  It carries no table of classes along: whatever names a class is
resolved by what is known behind the tokens before it (`Known.behind`), and that is the headers
in them.  No expression holds a header (`Derives.isPlain`), so what is known at the start of an
expression is what is known at every call in it.

A derivation that does carry a table along resolves all names in this way
(`Composes.resolves`): the table that it ends with is the one that the headers make
(`Composes.behind_eq`).
-/

namespace Offside

/-! ## Expressions hold no headers -/

namespace Expression

open Statement (IsPlain PlainToken isPlain_cons)

variable {classes : Bindings ClassId}

/-- A token that may stand in an expression. -/
def IsInner : Token → Prop
  | .number _ | .identifier _ | .symbol _ | .string _ | .operator _ => True
  | .keyword word => word ∈ [.trueWord, .falseWord, .noneWord, .notWord, .andWord, .orWord]
  | .layout _ => False

variable {token : Token}

theorem IsInner.plainToken (h : IsInner token) : PlainToken token := by
  refine ⟨?_, ?_, ?_⟩ <;>
    · rintro rfl
      simp [IsInner] at h

theorem isInner_of_carriesOn? {level : Level} (h : carriesOn? token = some level) :
    IsInner token := by
  unfold carriesOn? at h
  split at h <;> first | trivial | simp [IsInner]

theorem isInner_of_literal? {origin : Origin} {node : Node}
    (h : literal? origin token = some node) : IsInner token := by
  unfold literal? at h
  split at h <;> first | trivial | simp [IsInner]

theorem isInner_dottedTokens (name : String) (fields : List String) :
    ∀ token ∈ dottedTokens name fields, IsInner token := by
  intro token hmem
  simp only [dottedTokens, List.mem_cons, List.mem_flatMap, List.not_mem_nil, or_false] at hmem
  obtain rfl | ⟨field, -, rfl | rfl⟩ := hmem <;> trivial

/-- An expression holds no other tokens. -/
theorem Derives.isInner {phrase : Phrase} {tokens : List Token}
    (h : Derives classes phrase tokens) : ∀ token ∈ tokens, IsInner token := by
  have append {front behind : List Token} (hfront : ∀ token ∈ front, IsInner token)
      (hbehind : ∀ token ∈ behind, IsInner token) : ∀ token ∈ front ++ behind, IsInner token :=
    List.forall_mem_append.mpr ⟨hfront, hbehind⟩
  have cons {first : Token} {behind : List Token} (hfirst : IsInner first)
      (hbehind : ∀ token ∈ behind, IsInner token) : ∀ token ∈ first :: behind, IsInner token :=
    List.forall_mem_cons.mpr ⟨hfirst, hbehind⟩
  have symbol {behind : List Token} (character : Char)
      (hbehind : ∀ token ∈ behind, IsInner token) :
      ∀ token ∈ .symbol character :: behind, IsInner token :=
    @cons (.symbol character) behind trivial hbehind
  induction h with
  | tailEnd | argumentsEnd | moreArgumentsEnd | callsEnd => exact List.forall_mem_nil _
  | chain _ _ _ ihfirst ihmore => exact append ihfirst ihmore
  | tailMore hjoin _ _ ihright ihmore =>
      exact append (cons (isInner_of_carriesOn? (carriesOn?_of_joins hjoin)) ihright) ihmore
  | negation _ ih => exact @cons (.keyword .notWord) _ (by simp [IsInner]) ih
  | comparison _ hfound _ ihleft ihright =>
      exact append ihleft (cons (isInner_of_carriesOn? (carriesOn?_of_relation hfound)) ihright)
  | sign _ _ ih => exact symbol '-' ih
  | literal h => exact List.forall_mem_singleton.mpr (isInner_of_literal? h)
  | parenthesized _ ih => exact append (symbol '(' ih) (symbol ')' (List.forall_mem_nil _))
  | dotted name fields => exact isInner_dottedTokens name fields
  | @application name fields _ _ _ _ _ _ _ _ ihvalues ihmore =>
      exact append (append (isInner_dottedTokens name fields) (symbol '(' ihvalues))
        (symbol ')' ihmore)
  | argumentsMore _ _ ihfirst ihothers => exact append ihfirst ihothers
  | moreArgumentsMore _ _ ihfirst ihothers => exact append (symbol ',' ihfirst) ihothers
  | callsMore _ _ ihvalues ihmore =>
      exact symbol '.' (@cons (.identifier _) _ trivial
        (append (symbol '(' ihvalues) (symbol ')' ihmore)))

/-- No token that carries an operand on begins a class or a block. -/
theorem plainToken_of_carriesOn? {level : Level} (h : carriesOn? token = some level) :
    PlainToken token :=
  (isInner_of_carriesOn? h).plainToken

/-- The tokens of an expression are plain. -/
theorem Derives.isPlain {phrase : Phrase} {tokens : List Token}
    (h : Derives classes phrase tokens) : IsPlain tokens :=
  fun token hmem => (h.isInner token hmem).plainToken

end Expression

namespace Statement

open Expression (Derives isInner_dottedTokens)

theorem isPlain_parameterTokens (names : List String) : IsPlain (parameterTokens names) := by
  cases names with
  | nil => exact .nil
  | cons first others =>
      refine IsPlain.identifier_cons (fun token hmem => ?_) first
      simp only [List.mem_flatMap, List.mem_cons, List.not_mem_nil, or_false] at hmem
      obtain ⟨name, -, heq | heq⟩ := hmem <;> simp [heq]

theorem Simple.isPlain {names : Bindings ClassId} {inMethod : Bool} {node : Node}
    {tokens : List Token} (h : Simple names inMethod node tokens) : IsPlain tokens := by
  cases h with
  | giveBack h => exact h.isPlain.keyword_cons (by decide)
  | print _ h => exact h.isPlain.keyword_cons (by decide)
  | assignment _ name fields h =>
      have hname : IsPlain (Expression.dottedTokens name fields) :=
        fun token hmem => (isInner_dottedTokens name fields token hmem).plainToken
      exact hname.append (h.isPlain.symbol_cons '=')
  | expression _ h => exact h.isPlain

/-! ## Resolution in place -/

/-- The tokens derive from the clause where they stand behind `front`, every class name in them
is resolved by the headers before it, and the derivation makes these classes. -/
inductive Resolves (base : Known) : List Token → Clause → List Token → List ClassRecord → Prop
  | simple {front : List Token} {inMethod : Bool} {node : Node} {tokens : List Token}
      (h : Simple (base.behind front).names inMethod node tokens) :
      Resolves base front (.statement inMethod node) (tokens ++ [.newline]) []
  | ifThen {front : List Token} {inMethod : Bool} {condition consequent : Node}
      {tokens more : List Token} {made : List ClassRecord}
      (hcondition : Derives (base.behind front).names (.operand .test condition) tokens)
      (hconsequent : Resolves base (front ++ (.keyword .ifWord :: tokens ++ [.symbol ':']))
        (.suite inMethod consequent) more made) :
      Resolves base front (.statement inMethod (.ifThen condition consequent))
        (.keyword .ifWord :: tokens ++ [.symbol ':'] ++ more) made
  | ifThenElse {front : List Token} {inMethod : Bool} {condition consequent alternative : Node}
      {tokens more last : List Token} {made madeAfter : List ClassRecord}
      (hcondition : Derives (base.behind front).names (.operand .test condition) tokens)
      (hconsequent : Resolves base (front ++ (.keyword .ifWord :: tokens ++ [.symbol ':']))
        (.suite inMethod consequent) more made)
      (halternative : Resolves base
        (front ++ (.keyword .ifWord :: tokens ++ [.symbol ':']) ++ more ++
          [.keyword .elseWord, .symbol ':']) (.suite inMethod alternative) last madeAfter) :
      Resolves base front (.statement inMethod (.ifThenElse condition consequent alternative))
        (.keyword .ifWord :: tokens ++ [.symbol ':'] ++ more ++
          [.keyword .elseWord, .symbol ':'] ++ last) (made ++ madeAfter)
  /-- The parent is looked up before the header, and the methods know the class itself. -/
  | classDefinition {front : List Token} (inMethod : Bool) {name : String}
      {parent : Option ClassId} {header tokens : List Token} {methods : List Method}
      {made : List ClassRecord} (hparent : Inherits (base.behind front).names parent header)
      (hmethods : Resolves base (front ++ headTokens name header) (.methods methods) tokens made) :
      Resolves base front (.statement inMethod (.classDefinition (base.behind front).count))
        (headTokens name header ++ tokens ++ [.dedent]) (⟨name, parent, methods⟩ :: made)
  | suite {front : List Token} {inMethod : Bool} {nodes : List Node} {tokens : List Token}
      {made : List ClassRecord}
      (h : Resolves base (front ++ [.newline, .indent]) (.statements inMethod nodes) tokens made) :
      Resolves base front (.suite inMethod (.block nodes))
        ([.newline, .indent] ++ tokens ++ [.dedent]) made
  | statementsEnd (front : List Token) (inMethod : Bool) :
      Resolves base front (.statements inMethod []) [] []
  | statementsMore {front : List Token} {inMethod : Bool} {first : Node} {others : List Node}
      {tokens more : List Token} {made madeAfter : List ClassRecord}
      (hfirst : Resolves base front (.statement inMethod first) tokens made)
      (hothers : Resolves base (front ++ tokens) (.statements inMethod others) more madeAfter) :
      Resolves base front (.statements inMethod (first :: others)) (tokens ++ more)
        (made ++ madeAfter)
  | method {front : List Token} {name : String} {names : List String} {block : Node}
      {tokens : List Token} {made : List ClassRecord}
      (h : Resolves base (front ++ (.keyword .defWord :: .identifier name :: .symbol '(' ::
        parameterTokens names ++ [.symbol ')', .symbol ':'])) (.suite true block) tokens made) :
      Resolves base front (.method ⟨name, withoutSelf names, .body block⟩)
        (.keyword .defWord :: .identifier name :: .symbol '(' :: parameterTokens names ++
          [.symbol ')', .symbol ':'] ++ tokens) made
  | methodsEnd (front : List Token) : Resolves base front (.methods []) [] []
  | methodsMore {front : List Token} {first : Method} {others : List Method}
      {tokens more : List Token} {made madeAfter : List ClassRecord}
      (hfirst : Resolves base front (.method first) tokens made)
      (hothers : Resolves base (front ++ tokens) (.methods others) more madeAfter) :
      Resolves base front (.methods (first :: others)) (tokens ++ more) (made ++ madeAfter)

/-! ## Derivations that carry a table along -/

variable {base known after : Known} {clause : Clause} {tokens : List Token}
  {made : List ClassRecord}

/-- The head of a conditional is plain. -/
theorem isPlain_condition {classes : Bindings ClassId} {condition : Node}
    (h : Derives classes (.operand .test condition) tokens) :
    IsPlain (.keyword .ifWord :: tokens ++ [.symbol ':']) :=
  (h.isPlain.keyword_cons (by decide)).append (IsPlain.nil.symbol_cons ':')

theorem isPlain_otherwise : IsPlain [.keyword .elseWord, .symbol ':'] :=
  (IsPlain.nil.symbol_cons ':').keyword_cons (by decide)

/-- The head of a method is plain. -/
theorem isPlain_methodHead (name : String) (names : List String) :
    IsPlain (.keyword .defWord :: .identifier name :: .symbol '(' :: parameterTokens names ++
      [.symbol ')', .symbol ':']) := by
  have hclosing : IsPlain [.symbol ')', .symbol ':'] :=
    (IsPlain.nil.symbol_cons ':').symbol_cons ')'
  have hparameters := ((isPlain_parameterTokens names).append hclosing).symbol_cons '('
  exact (hparameters.identifier_cons name).keyword_cons (by decide)

theorem leads_opening (known : Known) : known.Leads [.newline, .indent] known :=
  (Known.leads_single (by simp) known).append (Known.leads_single (by simp) known)

theorem leads_closing (known : Known) : known.Leads [.dedent] known :=
  Known.leads_single (by simp) known

/-- A derivation ends with what is known behind its tokens. -/
theorem Composes.leads (h : Composes known clause tokens made after) :
    known.Leads tokens after := by
  induction h with
  | simple h =>
      exact (Known.leads_of_isPlain h.isPlain _).append (Known.leads_single (by simp) _)
  | ifThen hcondition hconsequent ih =>
      have hall := (Known.leads_of_isPlain (isPlain_condition hcondition) _).append ih
      simpa using hall
  | ifThenElse hcondition hconsequent halternative ihconsequent ihalternative =>
      have hall := ((Known.leads_of_isPlain (isPlain_condition hcondition) _).append
        ihconsequent).append ((Known.leads_of_isPlain isPlain_otherwise _).append ihalternative)
      simpa using hall
  | classDefinition inMethod hparent hmethods hsome ih =>
      have hall := ((Known.leads_headTokens hparent _ _).append ih).append
        (leads_closing _)
      simpa [headTokens] using hall
  | suite h hsome ih =>
      have hall := ((leads_opening _).append ih).append
        (leads_closing _)
      simpa using hall
  | statementsEnd known inMethod => exact Known.leads_of_isPlain .nil known
  | statementsMore hfirst hothers ihfirst ihothers => exact ihfirst.append ihothers
  | @method _ _ name names _ _ _ h ih =>
      have hall := (Known.leads_of_isPlain (isPlain_methodHead name names) _).append ih
      simpa using hall
  | methodsEnd known => exact Known.leads_of_isPlain .nil known
  | methodsMore hfirst hothers ihfirst ihothers => exact ihfirst.append ihothers

/-- Names that mean classes that exist go on to do so. -/
theorem Known.IsSound.behind (h : base.IsSound) (tokens : List Token) :
    (base.behind tokens).IsSound := by
  unfold Known.behind
  induction headers tokens generalizing base with
  | nil => exact h
  | cons name names ih => exact ih (h.declare name)

/-- A parent that a header names exists. -/
theorem Known.IsSound.parent_eq (h : known.IsSound) {parent : Option ClassId}
    {header : List Token} (hparent : Inherits known.names parent header) :
    known.parent parent = parent := by
  cases hparent with
  | root => rfl
  | child hname => simp [Known.parent, h _ _ hname]

/-- Behind tokens that lead to what a derivation knows, it resolves all names in place. -/
theorem Composes.resolves (h : Composes known clause tokens made after) {front : List Token}
    (hbase : base.IsSound) (hfront : base.Leads front known) :
    Resolves base front clause tokens made := by
  induction h generalizing front with
  | simple h =>
      obtain rfl := hfront.behind_eq
      exact .simple h
  | ifThen hcondition hconsequent ih =>
      have hconsequent' :=
        ih (hfront.append (Known.leads_of_isPlain (isPlain_condition hcondition) _))
      obtain rfl := hfront.behind_eq
      simpa using Resolves.ifThen hcondition hconsequent'
  | ifThenElse hcondition hconsequent halternative ihconsequent ihalternative =>
      have hbegan := hfront.append (Known.leads_of_isPlain (isPlain_condition hcondition) _)
      have hotherwise := (hbegan.append hconsequent.leads).append
        (Known.leads_of_isPlain isPlain_otherwise _)
      have hconsequent' := ihconsequent hbegan
      have halternative' := ihalternative hotherwise
      obtain rfl := hfront.behind_eq
      simpa using Resolves.ifThenElse hcondition hconsequent' halternative'
  | classDefinition inMethod hparent hmethods hsome ih =>
      have hmethods' := ih (hfront.append (Known.leads_headTokens hparent _ _))
      obtain rfl := hfront.behind_eq
      rw [(hbase.behind front).parent_eq hparent]
      simpa [headTokens] using Resolves.classDefinition inMethod hparent hmethods'
  | suite h hsome ih => simpa using Resolves.suite (ih (hfront.append (leads_opening _)))
  | statementsEnd known inMethod => exact .statementsEnd front inMethod
  | statementsMore hfirst hothers ihfirst ihothers =>
      exact .statementsMore (ihfirst hfront) (ihothers (hfront.append hfirst.leads))
  | @method _ _ name names _ _ _ h ih =>
      have hmethod := Resolves.method
        (ih (hfront.append (Known.leads_of_isPlain (isPlain_methodHead name names) _)))
      simpa using hmethod
  | methodsEnd known => exact .methodsEnd front
  | methodsMore hfirst hothers ihfirst ihothers =>
      exact .methodsMore (ihfirst hfront) (ihothers (hfront.append hfirst.leads))

end Statement

end Offside
