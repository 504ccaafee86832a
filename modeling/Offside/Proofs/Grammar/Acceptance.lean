import Offside.Proofs.Grammar.ClauseCompleteness
import Offside.Proofs.Grammar.ClauseSoundness
import Offside.Proofs.Grammar.Production

/-!
# A program is accepted exactly if the grammar generates it

The grammar without trees generates the tokens that derive with a tree, for expressions
(`Expression.generates_iff`) and for statements (`Statement.Composes.generates` and
`Statement.Generates.hasClause`).
Together with the two directions that are shown for derivations with trees this says which
texts are accepted.
-/

namespace Offside

/-! ## Expressions -/

namespace Expression

/-- The names of classes are those that a derivation knows. -/
def Names (known : List String) (classes : Bindings ClassId) : Prop :=
  ∀ name, name ∈ known ↔ (classes.get? name).isSome

/-- The nonterminal of a phrase. -/
def Phrase.part : Phrase → Part
  | operand level _ => .operand level
  | tail level _ _ => .more level
  | arguments nodes => .args nodes.length
  | moreArguments nodes => .moreArgs nodes.length
  | calls _ _ => .calls

theorem Level.mem_operators_iff {level : Level} {token : Token} :
    token ∈ level.operators ↔ ∃ join, level.joins token = some join := by
  constructor
  · intro h
    cases level <;> simp only [operators, List.mem_cons, List.not_mem_nil, or_false] at h
    · exact h ▸ ⟨_, rfl⟩
    · exact h ▸ ⟨_, rfl⟩
    · rcases h with rfl | rfl <;> exact ⟨_, rfl⟩
    · rcases h with rfl | rfl <;> exact ⟨_, rfl⟩
  · rintro ⟨join, h⟩
    rcases joins_cases h with ⟨rfl, rfl, -⟩ | ⟨rfl, rfl, -⟩ | ⟨rfl, rfl, -⟩ | ⟨rfl, rfl, -⟩ |
      ⟨rfl, rfl, -⟩ | ⟨rfl, rfl, -⟩ <;> simp [operators]

theorem mem_comparisons_iff {token : Token} :
    token ∈ comparisons ↔ ∃ found, relation token = some found := by
  constructor
  · intro h
    simp only [comparisons, List.mem_cons, List.not_mem_nil, or_false] at h
    rcases h with rfl | rfl | rfl | rfl | rfl | rfl <;> exact ⟨_, rfl⟩
  · rintro ⟨found, h⟩
    unfold relation at h
    split at h <;> cases h <;> decide

theorem isLiteral_iff (origin : Origin) {token : Token} :
    IsLiteral token ↔ ∃ node, literal? origin token = some node := by
  constructor
  · rintro (_ | _ | _ | _ | _) <;> exact ⟨_, rfl⟩
  · rintro ⟨node, h⟩
    unfold literal? at h
    split at h <;> first | constructor | cases h

variable {known : List String} {classes : Bindings ClassId}

/-- A dotted name may be called exactly if the call means something. -/
theorem mayCall_iff (hnames : Names known classes) {name : String} {fields : List String}
    {values : List Node} :
    MayCall known name fields values.length ↔
      ∃ call, applied? classes name fields values = some call := by
  unfold MayCall applied?
  cases hlast : fields.getLast? with
  | some method =>
      have hfields : fields ≠ [] := by
        rintro rfl
        cases hlast
      simp [hfields]
  | none =>
      obtain rfl := List.getLast?_eq_none_iff.mp hlast
      by_cases hname : name = "str"
      · subst hname
        rcases values with _ | ⟨operand, _ | ⟨other, values⟩⟩ <;> simp [strName]
      · simp [strName, hname, hnames name, Option.isSome_iff_exists]

/-- A part of a level that joins nothing is empty. -/
theorem Derives.eq_nil_of_tail {level : Level} {left whole : Node} {tokens : List Token}
    (h : Derives classes (.tail level left whole) tokens) (hlevel : level.operators = []) :
    tokens = [] := by
  cases h with
  | tailEnd => rfl
  | tailMore hjoin =>
      have hmem := Level.mem_operators_iff.mpr ⟨_, hjoin⟩
      rw [hlevel] at hmem
      cases hmem

/-- What derives with a tree is generated without one. -/
theorem Derives.generates (hnames : Names known classes) {phrase : Phrase} {tokens : List Token}
    (h : Derives classes phrase tokens) : Generates known phrase.part tokens := by
  induction h with
  | @chain level first whole tokens more hlevel hfirst hmore ihfirst ihmore =>
      -- a level without operators has a production for its operand alone
      by_cases hoperators : level.operators = []
      · obtain rfl := hmore.eq_nil_of_tail hoperators
        rw [List.append_nil]
        cases level with
        | negated => exact .notNegated ihfirst
        | comparison => exact .notCompared ihfirst
        | signed => exact .notSigned ihfirst
        | primary => exact absurd rfl hlevel
        | test => cases hoperators
        | conjunct => cases hoperators
        | sum => cases hoperators
        | product => cases hoperators
      · exact .joined hoperators ihfirst ihmore
  | tailEnd level left => exact .moreEnd level
  | tailMore hjoin hright hmore ihright ihmore =>
      exact .moreOperand (Level.mem_operators_iff.mpr ⟨_, hjoin⟩) ihright ihmore
  | negation h ih => exact .negation ih
  | comparison hleft hfound hright ihleft ihright =>
      exact .comparison (mem_comparisons_iff.mpr ⟨_, hfound⟩) ihleft ihright
  | sign origin h ih => exact .sign ih
  | literal h => exact .literal ((isLiteral_iff _).mpr ⟨_, h⟩)
  | parenthesized h ih => exact .parenthesized ih
  | dotted name fields =>
      -- a name alone is one with no calls behind it
      have hdotted : Generates known (.operand .primary) (dottedTokens name fields ++ []) :=
        .dotted name fields .callsEnd
      rwa [List.append_nil] at hdotted
  | application hvalues hcall hmore ihvalues ihmore =>
      exact .called ((mayCall_iff hnames).mpr ⟨_, hcall⟩) ihvalues ihmore
  | argumentsEnd => exact .argsEnd
  | argumentsMore hfirst hothers ihfirst ihothers => exact .argsMore ihfirst ihothers
  | moreArgumentsEnd => exact .moreArgsEnd
  | moreArgumentsMore hfirst hothers ihfirst ihothers => exact .moreArgsMore ihfirst ihothers
  | callsEnd receiver => exact .callsEnd
  | callsMore hvalues hmore ihvalues ihmore => exact .callsMore ihvalues ihmore

/-- There are trees for what a nonterminal generates. -/
def Part.HasTree (classes : Bindings ClassId) (tokens : List Token) : Part → Prop
  | operand level => ∃ node, Derives classes (.operand level node) tokens
  | more level => ∀ left, ∃ whole, Derives classes (.tail level left whole) tokens
  | args count => ∃ nodes, nodes.length = count ∧ Derives classes (.arguments nodes) tokens
  | moreArgs count => ∃ nodes, nodes.length = count ∧ Derives classes (.moreArguments nodes) tokens
  | calls => (∀ receiver, ∃ whole, Derives classes (.calls receiver whole) tokens) ∧
      ∀ name fields, ∃ node,
        Derives classes (.operand .primary node) (dottedTokens name fields ++ tokens)

/-- What is generated derives with a tree. -/
theorem Generates.hasTree (hnames : Names known classes) {part : Part} {tokens : List Token}
    (h : Generates known part tokens) : part.HasTree classes tokens := by
  induction h with
  | @joined level tokens rest hlevel hfirst hmore ihfirst ihmore =>
      obtain ⟨first, hfirst⟩ := ihfirst
      obtain ⟨whole, hmore⟩ := ihmore first
      refine ⟨whole, .chain ?_ hfirst hmore⟩
      rintro rfl
      exact hlevel rfl
  | moreEnd level => exact fun left => ⟨left, .tailEnd level left⟩
  | moreOperand hoperator hoperand hmore ihoperand ihmore =>
      intro left
      obtain ⟨join, hjoin⟩ := Level.mem_operators_iff.mp hoperator
      obtain ⟨right, hright⟩ := ihoperand
      obtain ⟨whole, hmore⟩ := ihmore (join left right)
      exact ⟨whole, .tailMore hjoin hright hmore⟩
  | negation h ih =>
      obtain ⟨operand, hoperand⟩ := ih
      exact ⟨_, .negation hoperand⟩
  | notNegated h ih =>
      obtain ⟨node, hnode⟩ := ih
      exact ⟨node, hnode.of_next .negated nofun⟩
  | comparison hoperator hleft hright ihleft ihright =>
      obtain ⟨found, hfound⟩ := mem_comparisons_iff.mp hoperator
      obtain ⟨left, hleft⟩ := ihleft
      obtain ⟨right, hright⟩ := ihright
      exact ⟨_, .comparison hleft hfound hright⟩
  | notCompared h ih =>
      obtain ⟨node, hnode⟩ := ih
      exact ⟨node, hnode.of_next .comparison nofun⟩
  | sign h ih =>
      obtain ⟨operand, hoperand⟩ := ih
      exact ⟨_, .sign (.made 0) hoperand⟩
  | notSigned h ih =>
      obtain ⟨node, hnode⟩ := ih
      exact ⟨node, hnode.of_next .signed nofun⟩
  | literal h =>
      obtain ⟨node, hnode⟩ := (isLiteral_iff (.made 0)).mp h
      exact ⟨node, .literal hnode⟩
  | parenthesized h ih =>
      obtain ⟨node, hnode⟩ := ih
      exact ⟨node, .parenthesized hnode⟩
  | str h ih =>
      obtain ⟨node, hnode⟩ := ih
      -- `str` applied is a call like any other
      have hvalues : Derives classes (.arguments [node]) _ := .argumentsMore hnode .moreArgumentsEnd
      rw [List.append_nil] at hvalues
      have hcall : applied? classes "str" [] [node] = some (.stringify node) := rfl
      exact ⟨.stringify node, .application hvalues hcall (.callsEnd _)⟩
  | className hname hknown h ih =>
      obtain ⟨values, rfl, hvalues⟩ := ih
      have hmay : MayCall known _ [] values.length := .inr (.inr ⟨hname, hknown⟩)
      obtain ⟨call, hcall⟩ := (mayCall_iff hnames).mp hmay
      exact ⟨call, .application hvalues hcall (.callsEnd _)⟩
  | dotted name fields hcalls ih => exact ih.2 name fields
  | called hname h hcalls ih ihcalls =>
      obtain ⟨values, rfl, hvalues⟩ := ih
      obtain ⟨call, hcall⟩ := (mayCall_iff hnames).mp hname
      obtain ⟨whole, hmore⟩ := ihcalls.1 call
      exact ⟨whole, .application hvalues hcall hmore⟩
  | argsEnd => exact ⟨[], rfl, .argumentsEnd⟩
  | argsMore hfirst hmore ihfirst ihmore =>
      obtain ⟨first, hfirst⟩ := ihfirst
      obtain ⟨others, rfl, hothers⟩ := ihmore
      exact ⟨first :: others, rfl, .argumentsMore hfirst hothers⟩
  | moreArgsEnd => exact ⟨[], rfl, .moreArgumentsEnd⟩
  | moreArgsMore hfirst hmore ihfirst ihmore =>
      obtain ⟨first, hfirst⟩ := ihfirst
      obtain ⟨others, rfl, hothers⟩ := ihmore
      exact ⟨first :: others, rfl, .moreArgumentsMore hfirst hothers⟩
  | callsEnd =>
      refine ⟨fun receiver => ⟨receiver, .callsEnd receiver⟩, fun name fields => ?_⟩
      rw [List.append_nil]
      exact ⟨_, .dotted name fields⟩
  | @callsMore method count tokens rest h hcalls ih ihcalls =>
      obtain ⟨values, rfl, hvalues⟩ := ih
      refine ⟨fun receiver => ?_, fun name fields => ?_⟩
      · obtain ⟨whole, hmore⟩ := ihcalls.1 (.call receiver method values)
        exact ⟨whole, .callsMore hvalues hmore⟩
      -- behind a dotted name the first method is the last part of a longer name
      · obtain ⟨whole, hmore⟩ := ihcalls.1 (.call (.variable name fields) method values)
        have hcall : applied? classes name (fields ++ [method]) values =
            some (.call (.variable name fields) method values) := by simp [applied?]
        have hderives := Derives.application hvalues hcall hmore
        rw [dottedTokens_append, List.append_assoc, List.append_assoc] at hderives
        exact ⟨whole, by simpa using hderives⟩

/-- The grammar of expressions generates what derives as an expression. -/
theorem generates_iff (hnames : Names known classes) {level : Level} {tokens : List Token} :
    Generates known (.operand level) tokens ↔
      ∃ node, Derives classes (.operand level node) tokens :=
  ⟨fun h => h.hasTree hnames, fun ⟨_, h⟩ => h.generates hnames⟩

end Expression

/-! ## Statements -/

namespace Statement

open Expression (Names)

/-- The nonterminal of a clause. -/
def Clause.part : Clause → Part
  | statement inMethod _ => .statement inMethod
  | statements inMethod _ => .statements inMethod
  | suite inMethod _ => .suite inMethod
  | method _ => .method
  | methods _ => .methods

theorem generatesSimple_iff {known : List String} {classes : Bindings ClassId}
    (hnames : Names known classes) {inMethod : Bool} {tokens : List Token} :
    GeneratesSimple known inMethod tokens ↔ ∃ node, Simple classes inMethod node tokens := by
  constructor
  · intro h
    cases h with
    | giveBack h =>
        obtain ⟨value, hvalue⟩ := h.hasTree hnames
        exact ⟨_, .giveBack hvalue⟩
    | print _ h =>
        obtain ⟨values, -, hvalues⟩ := h.hasTree hnames
        exact ⟨_, .print inMethod hvalues⟩
    | assignment _ name fields h =>
        obtain ⟨value, hvalue⟩ := h.hasTree hnames
        exact ⟨_, .assignment inMethod name fields hvalue⟩
    | test _ h =>
        obtain ⟨node, hnode⟩ := h.hasTree hnames
        exact ⟨node, .expression inMethod hnode⟩
  · rintro ⟨node, h⟩
    cases h with
    | giveBack h => exact .giveBack (h.generates hnames)
    | print _ h => exact .print inMethod (h.generates hnames)
    | assignment _ name fields h => exact .assignment inMethod name fields (h.generates hnames)
    | expression _ h => exact .test inMethod (h.generates hnames)

theorem generatesParent_iff {known : List String} {classes : Bindings ClassId}
    (hnames : Names known classes) {tokens : List Token} :
    GeneratesParent known tokens ↔ ∃ parent, Inherits classes parent tokens := by
  constructor
  · intro h
    cases h with
    | none => exact ⟨none, .root⟩
    | some hname =>
        obtain ⟨cls, hcls⟩ := Option.isSome_iff_exists.mp ((hnames _).mp hname)
        exact ⟨some cls, .child hcls⟩
  · rintro ⟨parent, h⟩
    cases h with
    | root => exact .none
    | child hcls => exact .some ((hnames _).mpr (by rw [hcls]; rfl))

/-- The header of a class makes its name known. -/
theorem names_declare {names : List String} {known : Known} (h : Names names known.names)
    (name : String) : Names (name :: names) (known.declare name).names := by
  intro other
  rw [Known.declare, Bindings.get?_set, List.mem_cons, h other]
  by_cases heq : name = other
  · simp [heq]
  · simp [heq, Ne.symm heq]

/-- Statements, if there are any, have tokens. -/
theorem Composes.ne_nil_of_statements {known after : Known} {inMethod : Bool} {nodes : List Node}
    {tokens : List Token} {made : List ClassRecord}
    (h : Composes known (.statements inMethod nodes) tokens made after) (hsome : nodes ≠ []) :
    tokens ≠ [] := by
  cases h with
  | statementsEnd => exact absurd rfl hsome
  | statementsMore hfirst hothers =>
      obtain ⟨token, rest, rfl, -⟩ := hfirst.opens
      exact nofun

/-- Methods, if there are any, have tokens. -/
theorem Composes.ne_nil_of_methods {known after : Known} {definitions : List Method}
    {tokens : List Token} {made : List ClassRecord}
    (h : Composes known (.methods definitions) tokens made after) (hsome : definitions ≠ []) :
    tokens ≠ [] := by
  cases h with
  | methodsEnd => exact absurd rfl hsome
  | methodsMore hfirst hothers =>
      cases hfirst
      exact nofun

/-- What composes with a tree is generated without one. -/
theorem Composes.generates {known after : Known} {clause : Clause} {tokens : List Token}
    {made : List ClassRecord} (h : Composes known clause tokens made after) {names : List String}
    (hnames : Names names known.names) :
    ∃ later, Generates names clause.part tokens later ∧ Names later after.names := by
  induction h generalizing names with
  | simple h => exact ⟨names, .simple ((generatesSimple_iff hnames).mpr ⟨_, h⟩), hnames⟩
  | ifThen hcondition hconsequent ih =>
      obtain ⟨later, hgenerates, hlater⟩ := ih hnames
      exact ⟨later, .ifThen (hcondition.generates hnames) hgenerates, hlater⟩
  | ifThenElse hcondition hconsequent halternative ihconsequent ihalternative =>
      obtain ⟨between, hgenerates, hbetween⟩ := ihconsequent hnames
      obtain ⟨later, hgenerates', hlater⟩ := ihalternative hbetween
      exact ⟨later, .ifThenElse (hcondition.generates hnames) hgenerates hgenerates', hlater⟩
  | @classDefinition _ _ inMethod name _ _ _ _ _ hparent hmethods hsome ih =>
      obtain ⟨later, hgenerates, hlater⟩ := ih (names_declare hnames name)
      have hheader := (generatesParent_iff hnames).mpr ⟨_, hparent⟩
      -- there are tokens of methods, so one of them comes first
      have htokens := hmethods.ne_nil_of_methods hsome
      cases hgenerates with
      | methodsEnd => exact absurd rfl htokens
      | methodsMore hfirst hothers =>
          exact ⟨later, .classDefinition inMethod hheader hfirst hothers, hlater⟩
  | suite hnodes hsome ih =>
      obtain ⟨later, hgenerates, hlater⟩ := ih hnames
      have htokens := hnodes.ne_nil_of_statements hsome
      cases hgenerates with
      | statementsEnd => exact absurd rfl htokens
      | statementsMore hfirst hothers => exact ⟨later, .suite hfirst hothers, hlater⟩
  | statementsEnd known inMethod => exact ⟨names, .statementsEnd names inMethod, hnames⟩
  | statementsMore hfirst hothers ihfirst ihothers =>
      obtain ⟨between, hgenerates, hbetween⟩ := ihfirst hnames
      obtain ⟨later, hgenerates', hlater⟩ := ihothers hbetween
      exact ⟨later, .statementsMore hgenerates hgenerates', hlater⟩
  | method h ih =>
      obtain ⟨later, hgenerates, hlater⟩ := ih hnames
      exact ⟨later, .method hgenerates, hlater⟩
  | methodsEnd known => exact ⟨names, .methodsEnd names, hnames⟩
  | methodsMore hfirst hothers ihfirst ihothers =>
      obtain ⟨between, hgenerates, hbetween⟩ := ihfirst hnames
      obtain ⟨later, hgenerates', hlater⟩ := ihothers hbetween
      exact ⟨later, .methodsMore hgenerates hgenerates', hlater⟩

/-- There is a clause of a nonterminal. -/
def Part.HasClause (part : Part) (P : Clause → Prop) : Prop :=
  match part with
  | statement inMethod => ∃ node, P (.statement inMethod node)
  | statements inMethod => ∃ nodes, P (.statements inMethod nodes)
  | suite inMethod => ∃ node, P (.suite inMethod node)
  | method => ∃ definition, P (.method definition)
  | methods => ∃ definitions, P (.methods definitions)

/-- What is generated composes with a tree. -/
theorem Generates.hasClause {names later : List String} {part : Part} {tokens : List Token}
    (h : Generates names part tokens later) {known : Known} (hnames : Names names known.names) :
    part.HasClause fun clause => ∃ made after, Composes known clause tokens made after ∧
      Names later after.names := by
  induction h generalizing known with
  | simple h =>
      obtain ⟨node, hnode⟩ := (generatesSimple_iff hnames).mp h
      exact ⟨node, [], known, .simple hnode, hnames⟩
  | ifThen hcondition hsuite ih =>
      obtain ⟨condition, hcondition⟩ := hcondition.hasTree hnames
      obtain ⟨block, made, after, hblock, hafter⟩ := ih hnames
      exact ⟨_, made, after, .ifThen hcondition hblock, hafter⟩
  | ifThenElse hcondition hsuite hother ihsuite ihother =>
      obtain ⟨condition, hcondition⟩ := hcondition.hasTree hnames
      obtain ⟨block, made, between, hblock, hbetween⟩ := ihsuite hnames
      obtain ⟨other, made', after, hother, hafter⟩ := ihother hbetween
      exact ⟨_, _, after, .ifThenElse hcondition hblock hother, hafter⟩
  | @classDefinition _ _ _ inMethod name _ _ _ hparent hfirst hothers ihfirst ihothers =>
      obtain ⟨parent, hparent⟩ := (generatesParent_iff hnames).mp hparent
      obtain ⟨first, made, between, hfirst, hbetween⟩ := ihfirst (names_declare hnames name)
      obtain ⟨others, made', after, hothers, hafter⟩ := ihothers hbetween
      exact ⟨_, _, after, .classDefinition inMethod hparent (.methodsMore hfirst hothers) nofun,
        hafter⟩
  | suite hfirst hothers ihfirst ihothers =>
      obtain ⟨first, made, between, hfirst, hbetween⟩ := ihfirst hnames
      obtain ⟨others, made', after, hothers, hafter⟩ := ihothers hbetween
      exact ⟨_, _, after, .suite (.statementsMore hfirst hothers) nofun, hafter⟩
  | statementsEnd names inMethod => exact ⟨[], [], known, .statementsEnd known inMethod, hnames⟩
  | statementsMore hfirst hothers ihfirst ihothers =>
      obtain ⟨first, made, between, hfirst, hbetween⟩ := ihfirst hnames
      obtain ⟨others, made', after, hothers, hafter⟩ := ihothers hbetween
      exact ⟨first :: others, _, after, .statementsMore hfirst hothers, hafter⟩
  | @method _ _ name parameters _ h ih =>
      obtain ⟨block, made, after, hblock, hafter⟩ := ih hnames
      exact ⟨⟨name, withoutSelf parameters, .body block⟩, made, after, .method hblock, hafter⟩
  | methodsEnd names => exact ⟨[], [], known, .methodsEnd known, hnames⟩
  | methodsMore hfirst hothers ihfirst ihothers =>
      obtain ⟨first, made, between, hfirst, hbetween⟩ := ihfirst hnames
      obtain ⟨others, made', after, hothers, hafter⟩ := ihothers hbetween
      exact ⟨first :: others, _, after, .methodsMore hfirst hothers, hafter⟩

end Statement

/-! ## Programs -/

namespace Program

variable {source : Nat} {classes : Classes} {names : Bindings ClassId} {tape : Tape}

theorem result_eq_ok_iff {tree : Node} :
    (read source classes names tape).result = .ok tree ↔
      ∃ nodes after, Statement.program source tape ⟨classes, names, []⟩ = .ok nodes after ∧
        tree = .block nodes := by
  unfold read
  split
  · rename_i statements declared hread
    constructor
    · rintro ⟨⟩
      exact ⟨statements, declared, hread, rfl⟩
    · rintro ⟨nodes, after, h, rfl⟩
      cases hread.symm.trans h
      rfl
  · rename_i refusal declared hread
    constructor
    · rintro ⟨⟩
    · rintro ⟨nodes, after, h, rfl⟩
      cases hread.symm.trans h

theorem declared_of_program {nodes : List Node} {after : Declared}
    (h : Statement.program source tape ⟨classes, names, []⟩ = .ok nodes after) :
    (read source classes names tape).declared = after := by
  unfold read
  rw [h]

/-- What composes is read, and declares the classes that it makes. -/
theorem read_of_composes {rename : ClassId → ClassId} {known after : Statement.Known}
    {nodes : List Node} {tokens : List Token} {made : List ClassRecord}
    (h : Statement.Composes known (.statements false nodes) tokens made after)
    (hmatches : Statement.Matches rename known ⟨classes, names, []⟩)
    (hscanned : tape.fault? = none) (hwords : tape.words = tokens ++ [.eof]) (source : Nat) :
    ∃ copies, (read source classes names tape).result = .ok (.block copies) ∧
      Node.MirrorsAll rename copies nodes ∧
      Statement.Extends rename ⟨classes, names, []⟩ made
        (read source classes names tape).declared ∧
      Statement.Matches rename after (read source classes names tape).declared := by
  obtain ⟨taken, place, beforeLast, hpass⟩ := Tape.passes_of_fault?_eq_none hscanned
  rw [hpass.words_eq] at hwords
  rw [List.append_cancel_right hwords] at hpass
  obtain ⟨copies, later, hprogram, hmirrors, hdeclared⟩ :=
    @Statement.Composes.reads_program source _ _ _ _ _ _ _ _ _ _ h hmatches hpass
  rw [declared_of_program hprogram]
  exact ⟨copies, result_eq_ok_iff.mpr ⟨copies, later, hprogram, rfl⟩, hmirrors, hdeclared⟩

/-- A program that is read has no fault of its tokens, and the grammar generates them. -/
theorem generates_of_read {tree : Node} (hlaid : tape.Laid)
    (hread : (read source classes names tape).result = .ok tree) :
    tape.fault? = none ∧ GeneratesProgram names.names tape.words := by
  obtain ⟨nodes, after, hprogram, -⟩ := result_eq_ok_iff.mp hread
  obtain ⟨place, beforeLast, tokens, made, hpass, hcomposes, -⟩ :=
    Statement.spans_of_program hlaid hprogram
  obtain ⟨later, hgenerates, -⟩ := hcomposes.generates fun _ => Bindings.mem_names
  rw [hpass.words_eq]
  exact ⟨hpass.fault?_eq_none, .statements hgenerates⟩

/-- A program that the grammar generates is read. -/
theorem exists_read_of_generates (hscanned : tape.fault? = none)
    (h : GeneratesProgram names.names tape.words) :
    ∃ tree, (read source classes names tape).result = .ok tree := by
  obtain ⟨tokens, place, beforeLast, hpass⟩ := Tape.passes_of_fault?_eq_none hscanned
  rw [hpass.words_eq] at h
  generalize hall : tokens ++ [.eof] = all at h
  cases h with
  | statements hgenerates =>
      obtain rfl := List.append_cancel_right hall
      have hnames : Expression.Names names.names (Statement.Known.of ⟨classes, names, []⟩).names :=
        fun _ => Bindings.mem_names
      obtain ⟨nodes, made, after, hcomposes, -⟩ := hgenerates.hasClause hnames
      obtain ⟨copies, later, hread, -⟩ := hcomposes.reads_program .refl hpass
      exact ⟨_, result_eq_ok_iff.mpr ⟨copies, later, hread, rfl⟩⟩

/-- A text is accepted exactly if it has no fault of its tokens and the grammar generates
them, where the names that mean classes at first are known.  Every other text is refused
with a fault of its tokens or of its grammar. -/
theorem accepted_iff_generates (source : Nat) (classes : Classes) (names : Bindings ClassId)
    {text : String} {tape : Tape} (htape : Tape.ofString text = .ok tape) :
    ((∃ tree, (read source classes names tape).result = .ok tree) ↔
        tape.fault? = none ∧ GeneratesProgram names.names tape.words) ∧
      (¬ (tape.fault? = none ∧ GeneratesProgram names.names tape.words) →
        ∃ fault, (read source classes names tape).result = .error fault ∧
          (fault.family = "LexerError" ∨ fault.family = "ParseError")) := by
  have hiff : (∃ tree, (read source classes names tape).result = .ok tree) ↔
      tape.fault? = none ∧ GeneratesProgram names.names tape.words :=
    ⟨fun ⟨_, hread⟩ => generates_of_read (Tape.laid_of_ofString htape) hread,
      fun ⟨hscanned, hgenerates⟩ => exists_read_of_generates hscanned hgenerates⟩
  refine ⟨hiff, fun hnot => ?_⟩
  cases hresult : (read source classes names tape).result with
  | ok tree => exact absurd (hiff.mp ⟨tree, hresult⟩) hnot
  | error fault => exact ⟨fault, rfl, fault.family_cases⟩

/-- A class that is made within itself and called behind itself. -/
theorem accepted_iff_generates_class :
    ∃ tape, Tape.ofString "class A:\n  def f(x):\n    return A()\nprint A().f(-1)\n" = .ok tape ∧
      tape.fault? = none ∧
      (((∃ tree, (read 0 .empty .empty tape).result = .ok tree) ↔
          tape.fault? = none ∧ GeneratesProgram [] tape.words) ∧
        (¬ (tape.fault? = none ∧ GeneratesProgram [] tape.words) →
          ∃ fault, (read 0 .empty .empty tape).result = .error fault ∧
            (fault.family = "LexerError" ∨ fault.family = "ParseError"))) := by
  have hfault : (Tape.ofString "class A:\n  def f(x):\n    return A()\nprint A().f(-1)\n").map
      Tape.fault? = .ok none := by
    decide +kernel
  cases htape : Tape.ofString "class A:\n  def f(x):\n    return A()\nprint A().f(-1)\n" with
  | error fault =>
      rw [htape] at hfault
      cases hfault
  | ok tape =>
      rw [htape] at hfault
      have hscanned : tape.fault? = none := Except.ok.inj hfault
      exact ⟨tape, rfl, hscanned, accepted_iff_generates 0 .empty .empty htape⟩

end Program

end Offside
