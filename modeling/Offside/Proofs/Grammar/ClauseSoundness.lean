import Offside.Grammar.Program
import Offside.Proofs.Grammar.Layout
import Offside.Proofs.Grammar.PhraseSoundness
import Offside.Proofs.Reading.Statement

/-!
# What is read as a statement derives as one

The counterpart of what is shown of expressions.  Whatever a reader of statements reads
off the tape of a text derives from the clause that the reader stands for, and the
classes that the derivation makes are those that the class table has grown by.

A class grows while its methods are read, so the reader of methods says where in the
class table the class stands (`spans_of_methods`).
-/

namespace Offside.Statement

open Tape
open Expression (Derives)

/-- The tokens between two tapes derive from a clause, and the class table grows by the
classes that the derivation makes. -/
def Spans (before : Declared) (tape : Tape) (clause : Clause) (rest : Tape) (after : Declared) :
    Prop :=
  ∃ tokens made, Passes tape tokens rest ∧
    Composes (.of before) clause tokens made (.of after) ∧
    after.classes.records.toList = before.classes.records.toList ++ made

variable {source : Nat} {before after : Declared} {tape rest : Tape} {inMethod : Bool}
  {node : Node}

/-! ## Simple statements -/

theorem simple_of_expression
    (h : Reads (Expression.expression ⟨source, before.names⟩ tape) node rest) :
    ∃ tokens, Passes tape tokens rest ∧ Simple before.names inMethod node tokens := by
  obtain ⟨tokens, hpass, hderives⟩ := Expression.spans_of_expression h
  exact ⟨tokens, hpass, .expression inMethod hderives⟩

/-- A simple statement declares nothing. -/
theorem simple_of_declares (h : Declares (simple source inMethod tape) before node rest after) :
    before = after ∧
      ∃ tokens, Passes tape tokens rest ∧ Simple before.names inMethod node tokens := by
  by_cases hreturn : tape.current = .keyword .returnWord
  · obtain ⟨⟨rfl, behind, value, hword, hvalue, rfl⟩, hafter⟩ :=
      (declares_simple_return hreturn).mp h
    obtain ⟨tokens, hpass, hderives⟩ := Expression.spans_of_expression hvalue
    exact ⟨hafter, _, hword.append hpass, .giveBack hderives⟩
  by_cases hprint : tape.current = .keyword .printWord
  · obtain ⟨behind, values, hword, hvalues, rfl⟩ := (declares_simple_print hprint).mp h
    obtain ⟨⟨-, rfl, rfl⟩ | ⟨-, hread⟩, hafter⟩ := declares_printed.mp hvalues
    · exact ⟨hafter, _, hword, .print inMethod .argumentsEnd⟩
    · obtain ⟨tokens, hpass, hderives⟩ := Expression.spans_of_expressions hread
      exact ⟨hafter, _, hword.append hpass, .print inMethod hderives⟩
  by_cases hname : ∃ name, tape.current = .identifier name
  · obtain ⟨first, hcurrent⟩ := hname
    obtain ⟨name, fields, named, hpassName, -, hnode⟩ := (declares_simple_name hcurrent).mp h
    obtain ⟨⟨behind, value, hequals, hvalue, rfl⟩ | ⟨-, hread⟩, hafter⟩ :=
      declares_namedTail.mp hnode
    · obtain ⟨tokens, hpass, hderives⟩ := Expression.spans_of_expression hvalue
      exact ⟨hafter, _, hpassName.append (hequals.append hpass),
        .assignment inMethod name fields hderives⟩
    · obtain ⟨tokens, hpass, hderives⟩ := Expression.spans_of_continued hpassName hread
      exact ⟨hafter, tokens, hpass, .expression inMethod hderives⟩
  · obtain ⟨hread, hafter⟩ :=
      (declares_simple_expression hreturn hprint (not_exists.mp hname)).mp h
    exact ⟨hafter, simple_of_expression hread⟩

theorem spans_of_line (h : Declares (line source inMethod tape) before node rest after) :
    Spans before tape (.statement inMethod node) rest after := by
  obtain ⟨ending, hsimple, hending⟩ := declares_line.mp h
  obtain ⟨rfl, tokens, hpass, hderives⟩ := simple_of_declares hsimple
  exact ⟨_, [], hpass.append hending, .simple hderives, (List.append_nil _).symm⟩

section

variable {outer : Tape} {inner : Inner outer}
  (hinner : ∀ {inMethod : Bool} {tape rest : Tape} {h : tape.length < outer.length}
    {before after : Declared} {node : Node}, tape.Laid →
    Declares (inner inMethod tape h) before node rest after →
    Spans before tape (.statement inMethod node) rest after)
include hinner

/-! ## Blocks -/

theorem spans_of_statements {h : tape.length < outer.length} {nodes : List Node}
    (hlaid : tape.Laid)
    (hread : Declares (statements inner inMethod tape h) before nodes rest after) :
    Spans before tape (.statements inMethod nodes) rest after := by
  induction tape using shorter_induction generalizing before nodes with
  | step tape ih =>
      rcases declares_statements.mp hread with ⟨-, rfl, rfl, rfl⟩ |
        ⟨-, -, first, others, behind, between, _, hfirst, hothers, rfl⟩
      · exact ⟨[], [], passes_nil.mpr rfl, .statementsEnd _ _, (List.append_nil _).symm⟩
      · obtain ⟨tokens, made, hpass, hderives, hmade⟩ := hinner hlaid hfirst
        obtain ⟨more, madeAfter, hpass', hderives', hmade'⟩ :=
          ih behind hfirst.shorter (hlaid.of_passes hpass) hothers
        refine ⟨_, _, hpass.append hpass', .statementsMore hderives hderives', ?_⟩
        rw [hmade', hmade, List.append_assoc]

theorem spans_of_suite {h : tape.length ≤ outer.length} (hlaid : tape.Laid)
    (hread : Declares (suite inner inMethod tape h) before node rest after) :
    Spans before tape (.suite inMethod node) rest after := by
  obtain ⟨nodes, opened, closed, _, hopen, hnodes, hclose, rfl⟩ := declares_suite.mp hread
  obtain ⟨ended, hending, hindent⟩ := hopen.split [.newline]
  obtain ⟨tokens, made, hpass, hderives, hmade⟩ :=
    spans_of_statements hinner (hlaid.of_passes hopen) hnodes
  refine ⟨_, made, hopen.append (hpass.append hclose), .suite hderives ?_, hmade⟩
  rintro rfl
  rcases declares_statements.mp hnodes with ⟨hcurrent, -⟩ | ⟨-, -, _, _, _, _, _, _, _, hnil⟩
  · exact (hlaid.of_passes hending).current_ne_dedent hindent hcurrent
  · cases hnil

theorem spans_of_conditional {h : tape.length ≤ outer.length} (hlaid : tape.Laid)
    (hread : Declares (conditional source inner inMethod tape h) before node rest after) :
    Spans before tape (.statement inMethod node) rest after := by
  obtain ⟨condition, consequent, opened, decided, began, behind, between, _, hopen, hcondition,
    hcolon, hconsequent, hread⟩ := declares_conditional.mp hread
  obtain ⟨tokens, hpass, hderives⟩ := Expression.spans_of_expression hcondition
  have hbegan := hopen.append (hpass.append hcolon)
  have hlaidBegan := hlaid.of_passes hbegan
  obtain ⟨more, made, hpass', hderives', hmade⟩ := spans_of_suite hinner hlaidBegan hconsequent
  rcases hread with ⟨-, rfl, rfl, rfl⟩ | ⟨alternative, otherwise, _, hword, halternative, rfl⟩
  · exact ⟨_, made, by simpa using hbegan.append hpass', .ifThen hderives hderives', hmade⟩
  · have hlaidOtherwise := (hlaidBegan.of_passes hpass').of_passes hword
    obtain ⟨last, madeAfter, hpass'', hderives'', hmade'⟩ :=
      spans_of_suite hinner hlaidOtherwise halternative
    refine ⟨_, made ++ madeAfter, ?_, .ifThenElse hderives hderives' hderives'', ?_⟩
    · simpa using hbegan.append (hpass'.append (hword.append hpass''))
    · rw [hmade', hmade, List.append_assoc]

/-! ## Classes -/

theorem spans_of_method {h : tape.length ≤ outer.length} {definition : Method} (hlaid : tape.Laid)
    (hread : Declares (method inner tape h) before definition rest after) :
    Spans before tape (.method definition) rest after := by
  obtain ⟨name, names, block, opened, _, hopen, hblock, rfl⟩ := declares_method.mp hread
  obtain ⟨tokens, made, hpass, hderives, hmade⟩ :=
    spans_of_suite hinner (hlaid.of_passes hopen) hblock
  exact ⟨_, made, by simpa using hopen.append hpass, .method hderives, hmade⟩

/-- The methods that are read are added to their class. -/
theorem spans_of_methods {h : tape.length < outer.length} {front behind : List ClassRecord}
    {record : ClassRecord} {cls : ClassId} (hlaid : tape.Laid) (hcls : front.length = cls)
    (hbefore : before.classes.records.toList = front ++ record :: behind)
    (hread : Declares (methods inner cls tape h) before () rest after) :
    ∃ tokens definitions made, Passes tape tokens rest ∧
      Composes (.of before) (.methods definitions) tokens made (.of after) ∧
      (definitions = [] → tape.current = .dedent) ∧
      after.classes.records.toList = front ++
        { record with methods := record.methods ++ definitions } :: behind ++ made := by
  induction tape using shorter_induction generalizing before record behind with
  | step tape ih =>
      rcases declares_methods.mp hread with ⟨hcurrent, rfl, rfl⟩ |
        ⟨hcurrent, first, afterFirst, between, _, hfirst, hothers⟩
      · refine ⟨[], [], [], passes_nil.mpr rfl, .methodsEnd _, fun _ => hcurrent, ?_⟩
        simpa using hbefore
      · obtain ⟨tokens, made, hpass, hderives, hmade⟩ := spans_of_method hinner hlaid hfirst
        rw [hbefore, List.append_assoc, List.cons_append] at hmade
        have hdefined := Classes.toList_records_define first hcls hmade
        obtain ⟨more, others, madeAfter, hpass', hderives', -, hafter⟩ :=
          ih afterFirst hfirst.shorter (hlaid.of_passes hpass) hdefined hothers
        have hknown : Known.of { between with
            classes := between.classes.define cls first } = .of between := by
          simp only [Known.of, Classes.count, Classes.define, Array.size_modify]
        rw [hknown] at hderives'
        refine ⟨_, first :: others, _, hpass.append hpass', .methodsMore hderives hderives',
          fun hnil => absurd hnil (List.cons_ne_nil _ _), ?_⟩
        simpa using hafter

theorem spans_of_classDefinition {h : tape.length ≤ outer.length} (hlaid : tape.Laid)
    (hread : Declares (classDefinition source inner tape h) before node rest after) :
    Spans before tape (.statement inMethod node) rest after := by
  obtain ⟨name, parent, header, opened, closed, between, _, hparent, hopen, hmethods, hclose, rfl,
    rfl⟩ := declares_classDefinition.mp hread
  obtain ⟨ended, hending, hindent⟩ :=
    Passes.split (.keyword .classWord :: .identifier name :: header ++
      [.symbol ':', .newline]) (by simpa using hopen)
  have hopened := (hlaid.of_passes hending).current_ne_dedent hindent
  have hdeclared := Classes.toList_records_declare before.classes name parent
  obtain ⟨tokens, definitions, made, hpass, hderives, hnone, hmade⟩ :=
    spans_of_methods hinner (hlaid.of_passes hopen) before.classes.length_toList_records hdeclared
      hmethods
  have hknown : Known.of { before with
      classes := before.classes.declare name parent
      names := before.names.set name before.classes.count } = (Known.of before).declare name := by
    simp only [Known.of, Known.declare, Classes.count, Classes.declare, Array.size_push]
  rw [hknown] at hderives
  have hall := hopen.append (hpass.append hclose)
  refine ⟨_, _, ?_, .classDefinition inMethod hparent hderives fun hnil => hopened (hnone hnil), ?_⟩
  · simpa using hall
  · rw [hmade, List.append_assoc]
    rfl

end

/-! ## Whole statements -/

/-- Whatever is read as a statement derives as one. -/
theorem spans_of_statement (hlaid : tape.Laid)
    (hread : Declares (statement source inMethod tape) before node rest after) :
    Spans before tape (.statement inMethod node) rest after := by
  induction tape using shorter_induction generalizing inMethod before node rest after with
  | step tape ih =>
      have hinner {inMethod : Bool} {shorter rest : Tape} {h : shorter.length < tape.length}
          {before after : Declared} {node : Node} (hlaid : shorter.Laid)
          (hread : Declares (within source tape inMethod shorter h) before node rest after) :
          Spans before shorter (.statement inMethod node) rest after :=
        ih shorter h hlaid hread
      by_cases hclass : tape.current = .keyword .classWord
      · exact spans_of_classDefinition hinner hlaid ((declares_statement_class hclass).mp hread)
      by_cases hif : tape.current = .keyword .ifWord
      · exact spans_of_conditional hinner hlaid ((declares_statement_if hif).mp hread)
      · exact spans_of_line ((declares_statement_line hclass hif).mp hread)

/-- Whatever is read as a program derives as one, and all tokens derive. -/
theorem spans_of_program {nodes : List Node} (hlaid : tape.Laid)
    (hread : program source tape before = .ok nodes after) :
    ∃ place beforeLast, Spans before tape (.statements false nodes) (.ended place beforeLast)
      after := by
  induction tape using shorter_induction generalizing before nodes with
  | step tape ih =>
      rcases program_eq_ok_iff.mp hread with ⟨hcurrent, rfl, rfl⟩ |
        ⟨-, first, others, behind, between, hfirst, hothers, rfl⟩
      · obtain ⟨place, beforeLast, rfl⟩ := hlaid.eq_ended hcurrent
        exact ⟨place, beforeLast, [], [], .stay _, .statementsEnd _ _, (List.append_nil _).symm⟩
      · obtain ⟨tokens, made, hpass, hderives, hmade⟩ := spans_of_statement hlaid hfirst
        obtain ⟨place, beforeLast, more, madeAfter, hpass', hderives', hmade'⟩ :=
          ih behind hfirst.shorter (hlaid.of_passes hpass) hothers
        refine ⟨place, beforeLast, _, _, hpass.append hpass',
          .statementsMore hderives hderives', ?_⟩
        rw [hmade', hmade, List.append_assoc]

end Offside.Statement
