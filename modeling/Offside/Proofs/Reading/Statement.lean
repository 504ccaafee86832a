import Offside.Proofs.Grammar.Clause
import Offside.Proofs.Reading.Expression

/-!
# What the readers of statements read

Statements are read like expressions, and classes are declared on the way.
`Declares reading before value rest after` says what was read, what is left of the
tape, and what is declared before and after.

As for expressions there is one statement for every reader, and no later proof unfolds
one.  Only three steps declare anything: the header of a class, the end of a method
and the end of a class (`declares_declare`, `declares_define`, `declares_finish`).
-/

namespace Offside.Statement

open Tape
open Declaring (ofReading inSetting)

variable {α β : Type} {bound larger : Nat} {before after : Declared}

/-- A reading that gives a value, leaves a tape and declares what it declares. -/
def Declares (reading : Declaring (Step α bound)) (before : Declared) (value : α) (rest : Tape)
    (after : Declared) : Prop :=
  ∃ shorter, reading before = .ok ⟨value, rest, shorter⟩ after

/-! ## Readings one after another -/

theorem Declares.shorter {reading : Declaring (Step α bound)} {value : α} {rest : Tape}
    (h : Declares reading before value rest after) : rest.length < bound :=
  h.1

theorem bind_eq_ok_iff {γ δ : Type} {reading : Declaring γ} {next : γ → Declaring δ} {value : δ} :
    (reading >>= next) before = .ok value after ↔
      ∃ first between, reading before = .ok first between ∧
        next first between = .ok value after := by
  change EStateM.bind reading next before = _ ↔ _
  unfold EStateM.bind
  cases reading before with
  | ok first between =>
      constructor
      · exact fun h => ⟨first, between, rfl, h⟩
      · rintro ⟨_, _, ⟨⟩, h⟩
        exact h
  | error refusal between =>
      constructor
      · rintro ⟨⟩
      · rintro ⟨_, _, ⟨⟩, -⟩

theorem declares_bind {reading : Declaring (Step α bound)}
    {next : Step α bound → Declaring (Step β larger)} {value : β} {rest : Tape} :
    Declares (reading >>= next) before value rest after ↔
      ∃ first middle shorter between, Declares reading before first middle between ∧
        Declares (next ⟨first, middle, shorter⟩) between value rest after := by
  unfold Declares
  simp only [bind_eq_ok_iff]
  constructor
  · rintro ⟨shorter, first, between, hfirst, hnext⟩
    exact ⟨first.value, first.rest, first.shorter, between, ⟨first.shorter, hfirst⟩, shorter, hnext⟩
  · rintro ⟨first, middle, shorter, between, ⟨_, hfirst⟩, hshorter, hnext⟩
    exact ⟨hshorter, _, between, hfirst, hnext⟩

@[simp] theorem declares_pure {step : Step α bound} {value : α} {rest : Tape} :
    Declares (pure step) before value rest after ↔
      (step.value = value ∧ step.rest = rest) ∧ before = after := by
  change (∃ shorter, EStateM.Result.ok step before = _) ↔ _
  constructor
  · rintro ⟨shorter, h⟩
    cases h
    exact ⟨⟨rfl, rfl⟩, rfl⟩
  · rintro ⟨⟨rfl, rfl⟩, rfl⟩
    exact ⟨step.shorter, rfl⟩

@[simp] theorem declares_ofReading {reading : Reading α bound} {value : α} {rest : Tape} :
    Declares (ofReading reading) before value rest after ↔
      Reads reading value rest ∧ before = after := by
  cases reading with
  | error refusal =>
      constructor
      · rintro ⟨shorter, h⟩
        cases h
      · exact fun h => absurd h.1 not_reads_error
  | ok step =>
      rw [show (.ok step : Reading α bound) = pure step from rfl, reads_pure]
      exact declares_pure

@[simp] theorem declares_inSetting {source : Nat}
    {read : Expression.Setting → Reading α bound} {value : α} {rest : Tape} :
    Declares (inSetting source read) before value rest after ↔
      Reads (read ⟨source, before.names⟩) value rest ∧ before = after :=
  declares_ofReading

/-- A reading that declares nothing comes before another. -/
theorem declares_ofReading_bind {reading : Reading α bound}
    {next : Step α bound → Declaring (Step β larger)} {value : β} {rest : Tape} :
    Declares (ofReading reading >>= next) before value rest after ↔
      ∃ first middle shorter, Reads reading first middle ∧
        Declares (next ⟨first, middle, shorter⟩) before value rest after := by
  simp only [declares_bind, declares_ofReading]
  constructor
  · rintro ⟨first, middle, _, _, ⟨hfirst, rfl⟩, hnext⟩
    exact ⟨first, middle, _, hfirst, hnext⟩
  · rintro ⟨first, middle, shorter, hfirst, hnext⟩
    exact ⟨first, middle, shorter, before, ⟨hfirst, rfl⟩, hnext⟩

theorem declares_inSetting_bind {source : Nat} {read : Expression.Setting → Reading α bound}
    {next : Step α bound → Declaring (Step β larger)} {value : β} {rest : Tape} :
    Declares (inSetting source read >>= next) before value rest after ↔
      ∃ first middle shorter, Reads (read ⟨source, before.names⟩) first middle ∧
        Declares (next ⟨first, middle, shorter⟩) before value rest after :=
  declares_ofReading_bind

section

variable {tape rest : Tape} {value : β}

/-- A reader that takes one token and no other comes before another. -/
theorem declares_expect {token : Token} {reading : Reading Token tape.length}
    {next : Step Token tape.length → Declaring (Step β larger)}
    (hreading : ∀ {found : Token} {behind : Tape},
      Reads reading found behind ↔ Passes tape [found] behind ∧ found = token) :
    Declares (ofReading reading >>= next) before value rest after ↔
      ∃ behind shorter, Passes tape [token] behind ∧
        Declares (next ⟨token, behind, shorter⟩) before value rest after := by
  simp only [declares_ofReading_bind, hreading]
  constructor
  · rintro ⟨_, behind, _, ⟨hpass, rfl⟩, hnext⟩
    exact ⟨behind, _, hpass, hnext⟩
  · rintro ⟨behind, shorter, hpass, hnext⟩
    exact ⟨_, behind, shorter, ⟨hpass, rfl⟩, hnext⟩

theorem declares_expectSymbol {character : Char}
    {next : Step Token tape.length → Declaring (Step β larger)} :
    Declares (ofReading (tape.expectSymbol character) >>= next) before value rest after ↔
      ∃ behind shorter, Passes tape [.symbol character] behind ∧
        Declares (next ⟨.symbol character, behind, shorter⟩) before value rest after :=
  declares_expect reads_expectSymbol

theorem declares_expectKeyword {word : Keyword}
    {next : Step Token tape.length → Declaring (Step β larger)} :
    Declares (ofReading (tape.expectKind (.keyword word)) >>= next) before value rest after ↔
      ∃ behind shorter, Passes tape [.keyword word] behind ∧
        Declares (next ⟨.keyword word, behind, shorter⟩) before value rest after :=
  declares_expect reads_expectKeyword

theorem declares_expectLayout {mark : Layout}
    {next : Step Token tape.length → Declaring (Step β larger)} :
    Declares (ofReading (tape.expectKind (.layout mark)) >>= next) before value rest after ↔
      ∃ behind shorter, Passes tape [.layout mark] behind ∧
        Declares (next ⟨.layout mark, behind, shorter⟩) before value rest after :=
  declares_expect reads_expectLayout

theorem declares_expectName {next : Step String tape.length → Declaring (Step β larger)} :
    Declares (ofReading tape.expectName >>= next) before value rest after ↔
      ∃ name behind shorter, Passes tape [.identifier name] behind ∧
        Declares (next ⟨name, behind, shorter⟩) before value rest after := by
  simp only [declares_ofReading_bind, reads_expectName]

end

theorem declares_declare {name : String} {parent : Option ClassId}
    {next : ClassId → Declaring (Step α bound)} {value : α} {rest : Tape} :
    Declares (Declaring.declare name parent >>= next) before value rest after ↔
      Declares (next before.classes.count)
        { before with
          classes := before.classes.declare name parent
          names := before.names.set name before.classes.count } value rest after :=
  Iff.rfl

theorem declares_define {cls : ClassId} {method : Method} {next : Unit → Declaring (Step α bound)}
    {value : α} {rest : Tape} :
    Declares (Declaring.define cls method >>= next) before value rest after ↔
      Declares (next ()) { before with classes := before.classes.define cls method } value rest
        after :=
  Iff.rfl

theorem declares_finish {reached : Nat} {name : String} {parent : Option ClassId}
    {next : Unit → Declaring (Step α bound)} {value : α} {rest : Tape} :
    Declares (Declaring.finish reached name parent >>= next) before value rest after ↔
      Declares (next ())
        { before with
          finished := ⟨reached, name, parent.map before.classes.nameOf⟩ :: before.finished } value
        rest after :=
  Iff.rfl

/-! ## Simple statements -/

section

variable {source : Nat} {tape rest : Tape}

/-- What is read behind a dotted name. -/
theorem declares_namedTail {name : String} {fields : List String} {node : Node} :
    Declares (namedTail source name fields tape) before node rest after ↔
      ((∃ behind value, Passes tape [.symbol '='] behind ∧
          Reads (Expression.expression ⟨source, before.names⟩ behind) value rest ∧
          node = assignment name fields value) ∨
        (tape.current ≠ .symbol '=' ∧
          Reads (Expression.continued ⟨source, before.names⟩ name fields tape) node rest)) ∧
      before = after := by
  unfold namedTail
  split
  · rename_i hcurrent
    simp only [declares_bind, declares_pure, declares_ofReading, declares_inSetting,
      reads_advance_of_current hcurrent]
    constructor
    · rintro ⟨_, behind, _, _, ⟨⟨hequals, -⟩, rfl⟩, value, _, _, _, ⟨hvalue, rfl⟩, ⟨rfl, rfl⟩, rfl⟩
      exact ⟨.inl ⟨behind, value, hequals, hvalue, rfl⟩, rfl⟩
    · rintro ⟨⟨behind, value, hequals, hvalue, rfl⟩ | ⟨hne, -⟩, rfl⟩
      · exact ⟨_, behind, (reads_advance.mpr hequals).shorter, before, ⟨⟨hequals, rfl⟩, rfl⟩,
          value, rest, hvalue.shorter, before, ⟨hvalue, rfl⟩, ⟨rfl, rfl⟩, rfl⟩
      · exact absurd hcurrent hne
  · rename_i hcurrent
    rw [declares_inSetting]
    constructor
    · exact fun ⟨hread, hafter⟩ => ⟨.inr ⟨hcurrent, hread⟩, hafter⟩
    · rintro ⟨⟨behind, value, hequals, -⟩ | ⟨-, hread⟩, hafter⟩
      · exact absurd hequals.current_eq hcurrent
      · exact ⟨hread, hafter⟩

theorem declares_printed {nodes : List Node} :
    Declares (printed source tape) before nodes rest after ↔
      ((tape.current = .newline ∧ nodes = [] ∧ tape = rest) ∨
        (tape.current ≠ .newline ∧
          Reads (Expression.expressions ⟨source, before.names⟩ tape) nodes rest)) ∧
      before = after := by
  unfold printed
  split
  · rename_i hcurrent
    rw [declares_pure]
    constructor
    · rintro ⟨⟨rfl, rfl⟩, hafter⟩
      exact ⟨.inl ⟨hcurrent, rfl, rfl⟩, hafter⟩
    · rintro ⟨⟨-, rfl, rfl⟩ | ⟨hne, -⟩, hafter⟩
      · exact ⟨⟨rfl, rfl⟩, hafter⟩
      · exact absurd hcurrent hne
  · rename_i hcurrent
    simp only [declares_bind, declares_pure, declares_inSetting]
    constructor
    · rintro ⟨values, _, _, _, ⟨hvalues, rfl⟩, ⟨rfl, rfl⟩, hafter⟩
      exact ⟨.inr ⟨hcurrent, hvalues⟩, hafter⟩
    · rintro ⟨⟨heq, -⟩ | ⟨-, hvalues⟩, hafter⟩
      · exact absurd heq hcurrent
      · exact ⟨nodes, rest, hvalues.shorter, before, ⟨hvalues, rfl⟩, ⟨rfl, rfl⟩, hafter⟩

theorem declares_simple_return {inMethod : Bool} {node : Node}
    (hcurrent : tape.current = .keyword .returnWord) :
    Declares (simple source inMethod tape) before node rest after ↔
      (inMethod = true ∧ ∃ behind value, Passes tape [.keyword .returnWord] behind ∧
        Reads (Expression.expression ⟨source, before.names⟩ behind) value rest ∧
        node = .giveBack value) ∧
      before = after := by
  unfold simple
  simp only [hcurrent]
  split
  · rename_i hmethod
    simp only [declares_bind, declares_pure, declares_ofReading, declares_inSetting,
      reads_advance_of_current hcurrent]
    constructor
    · rintro ⟨_, behind, _, _, ⟨⟨hword, -⟩, rfl⟩, value, _, _, _, ⟨hvalue, rfl⟩, ⟨rfl, rfl⟩, rfl⟩
      exact ⟨⟨hmethod, behind, value, hword, hvalue, rfl⟩, rfl⟩
    · rintro ⟨⟨-, behind, value, hword, hvalue, rfl⟩, rfl⟩
      exact ⟨_, behind, (reads_advance.mpr hword).shorter, before, ⟨⟨hword, rfl⟩, rfl⟩, value,
        rest, hvalue.shorter, before, ⟨hvalue, rfl⟩, ⟨rfl, rfl⟩, rfl⟩
  · rename_i hmethod
    rw [declares_ofReading]
    constructor
    · exact fun ⟨hread, _⟩ => absurd hread not_reads_refuse
    · exact fun ⟨⟨htrue, _⟩, _⟩ => absurd htrue hmethod

theorem declares_simple_print {inMethod : Bool} {node : Node}
    (hcurrent : tape.current = .keyword .printWord) :
    Declares (simple source inMethod tape) before node rest after ↔
      ∃ behind values, Passes tape [.keyword .printWord] behind ∧
        Declares (printed source behind) before values rest after ∧ node = .print values := by
  unfold simple
  simp only [hcurrent, declares_bind, declares_pure, declares_ofReading,
    reads_advance_of_current hcurrent]
  constructor
  · rintro ⟨_, behind, _, _, ⟨⟨hword, -⟩, rfl⟩, values, _, _, _, hvalues, ⟨rfl, rfl⟩, rfl⟩
    exact ⟨behind, values, hword, hvalues, rfl⟩
  · rintro ⟨behind, values, hword, hvalues, rfl⟩
    exact ⟨_, behind, (reads_advance.mpr hword).shorter, before, ⟨⟨hword, rfl⟩, rfl⟩, values,
      rest, hvalues.shorter, after, hvalues, ⟨rfl, rfl⟩, rfl⟩

theorem declares_simple_name {inMethod : Bool} {node : Node} {first : String}
    (hcurrent : tape.current = .identifier first) :
    Declares (simple source inMethod tape) before node rest after ↔
      ∃ name fields named, Passes tape (Expression.dottedTokens name fields) named ∧
        named.current ≠ .symbol '.' ∧
        Declares (namedTail source name fields named) before node rest after := by
  unfold simple
  simp only [hcurrent, declares_bind, declares_pure, declares_ofReading]
  constructor
  · rintro ⟨⟨name, fields⟩, named, _, _, ⟨hname, rfl⟩, _, _, _, _, hnode, ⟨rfl, rfl⟩, rfl⟩
    obtain ⟨hpass, hstop⟩ := Expression.reads_dottedName.mp hname
    exact ⟨name, fields, named, hpass, hstop, hnode⟩
  · rintro ⟨name, fields, named, hpass, hstop, hnode⟩
    have hname := Expression.reads_dottedName.mpr ⟨hpass, hstop⟩
    exact ⟨_, named, hname.shorter, before, ⟨hname, rfl⟩, node, rest, hnode.shorter, after, hnode,
      ⟨rfl, rfl⟩, rfl⟩

theorem declares_simple_expression {inMethod : Bool} {node : Node}
    (hreturn : tape.current ≠ .keyword .returnWord) (hprint : tape.current ≠ .keyword .printWord)
    (hname : ∀ name, tape.current ≠ .identifier name) :
    Declares (simple source inMethod tape) before node rest after ↔
      Reads (Expression.expression ⟨source, before.names⟩ tape) node rest ∧ before = after := by
  unfold simple
  split
  · exact absurd ‹_› hreturn
  · exact absurd ‹_› hprint
  · exact absurd ‹_› (hname _)
  · exact declares_inSetting

theorem declares_line {inMethod : Bool} {node : Node} :
    Declares (line source inMethod tape) before node rest after ↔
      ∃ ending, Declares (simple source inMethod tape) before node ending after ∧
        Passes ending [.newline] rest := by
  unfold line
  simp only [declares_bind, declares_pure, declares_ofReading, reads_expectLayout]
  constructor
  · rintro ⟨_, ending, _, _, hnode, _, _, _, _, ⟨⟨hpass, rfl⟩, rfl⟩, ⟨rfl, rfl⟩, rfl⟩
    exact ⟨ending, hnode, hpass⟩
  · rintro ⟨ending, hnode, hpass⟩
    exact ⟨node, ending, hnode.shorter, after, hnode, _, rest, (reads_advance.mpr hpass).shorter,
      after, ⟨⟨hpass, rfl⟩, rfl⟩, ⟨rfl, rfl⟩, rfl⟩

end

/-! ## Blocks -/

section

variable {source : Nat} {outer tape rest : Tape} {inner : Inner outer}

theorem declares_statements {inMethod : Bool} {h : tape.length < outer.length}
    {nodes : List Node} :
    Declares (statements inner inMethod tape h) before nodes rest after ↔
      (tape.current = .dedent ∧ nodes = [] ∧ tape = rest ∧ before = after) ∨
      (tape.current ≠ .dedent ∧ tape.current ≠ .eof ∧ ∃ first others behind between hbehind,
        Declares (inner inMethod tape h) before first behind between ∧
        Declares (statements inner inMethod behind hbehind) between others rest after ∧
        nodes = first :: others) := by
  rw [statements]
  split
  · rename_i hcurrent
    rw [declares_pure]
    constructor
    · rintro ⟨⟨rfl, rfl⟩, hafter⟩
      exact .inl ⟨hcurrent, rfl, rfl, hafter⟩
    · rintro (⟨-, rfl, rfl, hafter⟩ | ⟨hne, -⟩)
      · exact ⟨⟨rfl, rfl⟩, hafter⟩
      · exact absurd hcurrent hne
  · rename_i hcurrent
    rw [declares_ofReading]
    constructor
    · intro hread
      exact absurd hread.1 not_reads_refuse
    · rintro (⟨hdedent, -⟩ | ⟨-, hne, -⟩)
      · rw [hdedent] at hcurrent
        cases hcurrent
      · exact absurd hcurrent hne
  · rename_i hdedent heof
    simp only [declares_bind, declares_pure]
    constructor
    · rintro ⟨first, behind, _, between, hfirst, others, _, _, _, hothers, ⟨rfl, rfl⟩, rfl⟩
      exact .inr ⟨hdedent, heof, first, others, behind, between, _, hfirst, hothers, rfl⟩
    · rintro (⟨heq, -⟩ | ⟨-, -, first, others, behind, between, _, hfirst, hothers, rfl⟩)
      · exact absurd heq hdedent
      · exact ⟨first, behind, hfirst.shorter, between, hfirst, others, rest, hothers.shorter, after,
          hothers, ⟨rfl, rfl⟩, rfl⟩

/-- The statements of a block end where a `dedent` follows. -/
theorem Declares.current_statements {inMethod : Bool} {h : tape.length < outer.length}
    {nodes : List Node}
    (hread : Declares (statements inner inMethod tape h) before nodes rest after) :
    rest.current = .dedent := by
  induction tape using shorter_induction generalizing before nodes with
  | step tape ih =>
      rcases declares_statements.mp hread with ⟨hcurrent, -, rfl, -⟩ |
        ⟨-, -, first, others, behind, between, _, hfirst, hothers, -⟩
      · exact hcurrent
      · exact ih behind hfirst.shorter hothers

theorem declares_suite {inMethod : Bool} {h : tape.length ≤ outer.length} {node : Node} :
    Declares (suite inner inMethod tape h) before node rest after ↔
      ∃ nodes opened closed hopened, Passes tape [.newline, .indent] opened ∧
        Declares (statements inner inMethod opened hopened) before nodes closed after ∧
        Passes closed [.dedent] rest ∧ node = .block nodes := by
  unfold suite
  simp only [declares_expectLayout]
  simp only [declares_bind, declares_pure, declares_ofReading, reads_advance]
  constructor
  · rintro ⟨ended, _, hending, opened, _, hopen, nodes, closed, _, _, hnodes, _, _, _, _,
      ⟨hclose, rfl⟩, ⟨rfl, rfl⟩, rfl⟩
    -- the reader moves on behind the block without a look at what ends it
    have hdedent := hnodes.current_statements
    rw [hclose.current_eq] at hdedent
    subst hdedent
    exact ⟨nodes, opened, closed, _, hending.append hopen, hnodes, hclose, rfl⟩
  · rintro ⟨nodes, opened, closed, _, hpass, hnodes, hclose, rfl⟩
    obtain ⟨ended, hending, hopen⟩ := hpass.split [.newline]
    exact ⟨ended, (reads_advance.mpr hending).shorter, hending, opened,
      (reads_advance.mpr hopen).shorter, hopen, nodes, closed, hnodes.shorter, after, hnodes, _,
      rest, (reads_advance.mpr hclose).shorter, after, ⟨hclose, rfl⟩, ⟨rfl, rfl⟩, rfl⟩

/-! ## Conditionals -/

theorem declares_conditional {inMethod : Bool} {h : tape.length ≤ outer.length} {node : Node} :
    Declares (conditional source inner inMethod tape h) before node rest after ↔
      ∃ condition consequent opened decided began behind between hbegan,
        Passes tape [.keyword .ifWord] opened ∧
        Reads (Expression.expression ⟨source, before.names⟩ opened) condition decided ∧
        Passes decided [.symbol ':'] began ∧
        Declares (suite inner inMethod began hbegan) before consequent behind between ∧
        ((behind.current ≠ .keyword .elseWord ∧ node = .ifThen condition consequent ∧
            behind = rest ∧ between = after) ∨
          ∃ alternative otherwise hotherwise,
            Passes behind [.keyword .elseWord, .symbol ':'] otherwise ∧
            Declares (suite inner inMethod otherwise hotherwise) between alternative rest after ∧
            node = .ifThenElse condition consequent alternative) := by
  unfold conditional
  simp only [declares_expectKeyword, declares_inSetting_bind, declares_expectSymbol]
  simp only [declares_bind]
  constructor
  · rintro ⟨opened, _, hopen, condition, decided, _, hcondition, began, _, hcolon, consequent,
      behind, _, between, hconsequent, hread⟩
    refine ⟨condition, consequent, opened, decided, began, behind, between, _, hopen, hcondition,
      hcolon, hconsequent, ?_⟩
    split at hread
    · rename_i hcurrent
      simp only [declares_bind, declares_pure, declares_ofReading,
        reads_advance_of_current hcurrent, reads_expectSymbol] at hread
      obtain ⟨_, marked, _, _, ⟨⟨hword, -⟩, rfl⟩, _, otherwise, _, _, ⟨⟨hcolon', rfl⟩, rfl⟩,
        alternative, _, _, _, halternative, ⟨rfl, rfl⟩, rfl⟩ := hread
      exact .inr ⟨alternative, otherwise, _, hword.append hcolon', halternative, rfl⟩
    · rename_i hcurrent
      obtain ⟨⟨rfl, rfl⟩, rfl⟩ := declares_pure.mp hread
      exact .inl ⟨hcurrent, rfl, rfl, rfl⟩
  · rintro ⟨condition, consequent, opened, decided, began, behind, between, _, hopen, hcondition,
      hcolon, hconsequent, hread⟩
    refine ⟨opened, (reads_advance.mpr hopen).shorter, hopen, condition, decided,
      hcondition.shorter, hcondition, began, (reads_advance.mpr hcolon).shorter, hcolon,
      consequent, behind, hconsequent.shorter, between, hconsequent, ?_⟩
    rcases hread with ⟨hcurrent, rfl, rfl, rfl⟩ | ⟨alternative, otherwise, _, hpass, halternative,
      rfl⟩
    · rw [if_neg hcurrent]
      exact declares_pure.mpr ⟨⟨rfl, rfl⟩, rfl⟩
    · obtain ⟨marked, hword, hcolon'⟩ := hpass.split [.keyword .elseWord]
      rw [if_pos hword.current_eq]
      simp only [declares_bind, declares_pure, declares_ofReading, reads_advance,
        reads_expectSymbol]
      exact ⟨_, marked, (reads_advance.mpr hword).shorter, between, ⟨hword, rfl⟩, _, otherwise,
        (reads_advance.mpr hcolon').shorter, between, ⟨⟨hcolon', rfl⟩, rfl⟩, alternative, rest,
        halternative.shorter, after, halternative, ⟨rfl, rfl⟩, rfl⟩

/-! ## Methods -/

theorem reads_parameters {names : List String} :
    Reads (parameters tape) names rest ↔
      Passes tape (parameterTokens names) rest ∧
        (names = [] → rest.current.kind ≠ .identifier) ∧
        (names ≠ [] → rest.current ≠ .symbol ',') := by
  unfold parameters
  split
  · rename_i hcurrent
    simp only [reads_bind, reads_pure, reads_expectName, Expression.reads_namesAfter]
    constructor
    · rintro ⟨first, behind, _, hfirst, others, _, _, ⟨hothers, hstop⟩, rfl, rfl⟩
      exact ⟨hfirst.append hothers, fun hnil => absurd hnil (List.cons_ne_nil _ _), fun _ => hstop⟩
    · rintro ⟨hpass, hnone, hstop⟩
      cases names with
      | nil => exact absurd (passes_nil.mp hpass ▸ hcurrent) (hnone rfl)
      | cons first others =>
          obtain ⟨behind, hfirst, hothers⟩ := hpass.split [.identifier first]
          have hcurrent := hstop (List.cons_ne_nil _ _)
          have hread := Expression.reads_namesAfter.mpr ⟨hothers, hcurrent⟩
          exact ⟨first, behind, (reads_expectName.mpr hfirst).shorter, hfirst, others, rest,
            hread.shorter, ⟨hothers, hcurrent⟩, rfl, rfl⟩
  · rename_i hcurrent
    rw [reads_pure]
    constructor
    · rintro ⟨rfl, rfl⟩
      exact ⟨passes_nil.mpr rfl, fun _ => hcurrent, fun h => absurd rfl h⟩
    · rintro ⟨hpass, -, -⟩
      cases names with
      | nil => exact ⟨rfl, passes_nil.mp hpass⟩
      | cons first others =>
          rw [Passes.current_eq hpass] at hcurrent
          exact absurd rfl hcurrent

theorem declares_parameters {next : Step (List String) (tape.length + 1) → Declaring (Step α bound)}
    {value : α} :
    Declares (ofReading (parameters tape) >>= next) before value rest after ↔
      ∃ names behind shorter, Reads (parameters tape) names behind ∧
        Declares (next ⟨names, behind, shorter⟩) before value rest after :=
  declares_ofReading_bind

theorem declares_method {h : tape.length ≤ outer.length} {definition : Method} :
    Declares (method inner tape h) before definition rest after ↔
      ∃ name names block opened hopened,
        Passes tape (.keyword .defWord :: .identifier name :: .symbol '(' ::
          parameterTokens names ++ [.symbol ')', .symbol ':']) opened ∧
        Declares (suite inner true opened hopened) before block rest after ∧
        definition = ⟨name, withoutSelf names, .body block⟩ := by
  unfold method
  simp only [declares_expectKeyword, declares_expectName, declares_expectSymbol,
    declares_parameters]
  simp only [declares_bind, declares_pure]
  constructor
  · rintro ⟨marked, _, hword, name, named, _, hname, parenthesis, _, hopen, names, ended, _,
      hnames, closed, _, hclose, opened, _, hcolon, block, _, _, _, hblock, ⟨rfl, rfl⟩, rfl⟩
    exact ⟨name, names, block, opened, _, (hword.append (hname.append hopen)).append
      ((reads_parameters.mp hnames).1.append (hclose.append hcolon)), hblock, rfl⟩
  · rintro ⟨name, names, block, opened, _, hpass, hblock, rfl⟩
    obtain ⟨ended, hpass, hpassClose⟩ := passes_append.mp hpass
    obtain ⟨marked, hword, hpass⟩ := hpass.split [.keyword .defWord]
    obtain ⟨named, hname, hpass⟩ := hpass.split [.identifier name]
    obtain ⟨parenthesis, hopen, hnames⟩ := hpass.split [.symbol '(']
    obtain ⟨closed, hclose, hcolon⟩ := hpassClose.split [.symbol ')']
    have hstop : ended.current = .symbol ')' := hclose.current_eq
    have hread : Reads (parameters parenthesis) names ended :=
      reads_parameters.mpr ⟨hnames, fun _ => by rw [hstop]; decide, fun _ => by rw [hstop]; decide⟩
    exact ⟨marked, (reads_advance.mpr hword).shorter, hword, name, named,
      (reads_expectName.mpr hname).shorter, hname, parenthesis, (reads_advance.mpr hopen).shorter,
      hopen, names, ended, hread.shorter, hread, closed, (reads_advance.mpr hclose).shorter,
      hclose, opened, (reads_advance.mpr hcolon).shorter, hcolon, block, rest, hblock.shorter,
      after, hblock, ⟨rfl, rfl⟩, rfl⟩

theorem declares_methods {cls : ClassId} {h : tape.length < outer.length} :
    Declares (methods inner cls tape h) before () rest after ↔
      (tape.current = .dedent ∧ tape = rest ∧ before = after) ∨
      (tape.current ≠ .dedent ∧ ∃ first behind between hbehind,
        Declares (method inner tape (Nat.le_of_lt h)) before first behind between ∧
        Declares (methods inner cls behind hbehind)
          { between with classes := between.classes.define cls first } () rest after) := by
  rw [methods]
  split
  · rename_i hcurrent
    rw [declares_pure]
    constructor
    · rintro ⟨⟨-, rfl⟩, hafter⟩
      exact .inl ⟨hcurrent, rfl, hafter⟩
    · rintro (⟨-, rfl, hafter⟩ | ⟨hne, -⟩)
      · exact ⟨⟨rfl, rfl⟩, hafter⟩
      · exact absurd hcurrent hne
  · rename_i hcurrent
    simp only [declares_bind, declares_define, declares_pure]
    constructor
    · rintro ⟨first, behind, _, between, hfirst, _, _, _, _, hothers, ⟨-, rfl⟩, rfl⟩
      exact .inr ⟨hcurrent, first, behind, between, _, hfirst, hothers⟩
    · rintro (⟨heq, -⟩ | ⟨-, first, behind, between, _, hfirst, hothers⟩)
      · exact absurd heq hcurrent
      · exact ⟨first, behind, hfirst.shorter, between, hfirst, (), rest, hothers.shorter, after,
          hothers, ⟨trivial, rfl⟩, rfl⟩

/-! ## Classes -/

theorem reads_base {setting : Expression.Setting} {cls : ClassId} :
    Reads (base setting tape) cls rest ↔
      ∃ name, setting.classes.get? name = some cls ∧ Passes tape [.identifier name] rest := by
  unfold base
  split
  · rename_i name hcurrent
    split
    · rename_i found hfound
      simp only [reads_map, reads_advance_of_current hcurrent]
      constructor
      · rintro ⟨_, ⟨hpass, -⟩, rfl⟩
        exact ⟨name, hfound, hpass⟩
      · rintro ⟨other, hother, hpass⟩
        cases hpass.current_eq.symm.trans hcurrent
        exact ⟨_, ⟨hpass, rfl⟩, Option.some.inj (hfound.symm.trans hother)⟩
    · rename_i hnone
      constructor
      · exact fun h => absurd h not_reads_refuse
      · rintro ⟨other, hother, hpass⟩
        cases hpass.current_eq.symm.trans hcurrent
        rw [hnone] at hother
        cases hother
  · rename_i hcurrent
    constructor
    · exact fun h => absurd h not_reads_refuse
    · rintro ⟨name, -, hpass⟩
      exact absurd hpass.current_eq (hcurrent name)

theorem declares_parentOf {parent : Option ClassId} :
    Declares (parentOf source tape) before parent rest after ↔
      (∃ header, Inherits before.names parent header ∧ Passes tape header rest ∧
        (parent = none → tape.current ≠ .symbol '(')) ∧ before = after := by
  unfold parentOf
  split
  · rename_i hcurrent
    simp only [declares_bind, declares_pure, declares_ofReading, declares_inSetting,
      reads_advance_of_current hcurrent, reads_base, reads_expectSymbol]
    constructor
    · rintro ⟨_, opened, _, _, ⟨⟨hopen, -⟩, rfl⟩, cls, named, _, _, ⟨⟨name, hcls, hname⟩, rfl⟩, _,
        _, _, _, ⟨⟨hclose, rfl⟩, rfl⟩, ⟨rfl, rfl⟩, rfl⟩
      exact ⟨⟨_, .child hcls, hopen.append (hname.append hclose), nofun⟩, rfl⟩
    · rintro ⟨⟨header, hheader, hpass, hnone⟩, rfl⟩
      cases hheader with
      | root => exact absurd hcurrent (hnone rfl)
      | @child name cls hcls =>
          obtain ⟨opened, hopen, hpass⟩ := hpass.split [.symbol '(']
          obtain ⟨named, hname, hclose⟩ := hpass.split [.identifier name]
          exact ⟨_, opened, (reads_advance.mpr hopen).shorter, before, ⟨⟨hopen, rfl⟩, rfl⟩, cls,
            named, (reads_expectName.mpr hname).shorter, before, ⟨⟨name, hcls, hname⟩, rfl⟩, _,
            rest, (reads_advance.mpr hclose).shorter, before, ⟨⟨hclose, rfl⟩, rfl⟩, ⟨rfl, rfl⟩, rfl⟩
  · rename_i hcurrent
    rw [declares_pure]
    constructor
    · rintro ⟨⟨rfl, rfl⟩, hafter⟩
      exact ⟨⟨_, .root, passes_nil.mpr rfl, fun _ => hcurrent⟩, hafter⟩
    · rintro ⟨⟨header, hheader, hpass, -⟩, hafter⟩
      cases hheader with
      | root => exact ⟨⟨rfl, passes_nil.mp hpass⟩, hafter⟩
      | child => exact absurd hpass.current_eq hcurrent

theorem declares_parentOf_bind {next : Step (Option ClassId) (tape.length + 1) →
      Declaring (Step α bound)} {value : α} :
    Declares (parentOf source tape >>= next) before value rest after ↔
      ∃ parent header behind shorter, Inherits before.names parent header ∧
        Passes tape header behind ∧ (parent = none → tape.current ≠ .symbol '(') ∧
        Declares (next ⟨parent, behind, shorter⟩) before value rest after := by
  simp only [declares_bind, declares_parentOf]
  constructor
  · rintro ⟨parent, behind, shorter, _, ⟨⟨header, hheader, hpass, hnone⟩, rfl⟩, hnext⟩
    exact ⟨parent, header, behind, shorter, hheader, hpass, hnone, hnext⟩
  · rintro ⟨parent, header, behind, shorter, hheader, hpass, hnone, hnext⟩
    exact ⟨parent, behind, shorter, before, ⟨⟨header, hheader, hpass, hnone⟩, rfl⟩, hnext⟩

/-- The methods of a class end where a `dedent` follows. -/
theorem Declares.current_methods {cls : ClassId} {h : tape.length < outer.length}
    (hread : Declares (methods inner cls tape h) before () rest after) :
    rest.current = .dedent := by
  induction tape using shorter_induction generalizing before with
  | step tape ih =>
      rcases declares_methods.mp hread with ⟨hcurrent, rfl, -⟩ |
        ⟨-, first, behind, between, _, hfirst, hothers⟩
      · exact hcurrent
      · exact ih behind hfirst.shorter hothers

theorem declares_classDefinition {h : tape.length ≤ outer.length} {node : Node} :
    Declares (classDefinition source inner tape h) before node rest after ↔
      ∃ name parent header opened closed between hopened, Inherits before.names parent header ∧
        Passes tape (.keyword .classWord :: .identifier name :: header ++
          [.symbol ':', .newline, .indent]) opened ∧
        Declares (methods inner before.classes.count opened hopened)
          { before with
            classes := before.classes.declare name parent
            names := before.names.set name before.classes.count } () closed between ∧
        Passes closed [.dedent] rest ∧ node = .classDefinition before.classes.count ∧
        after = { between with
          finished := ⟨rest.place.index, name, parent.map between.classes.nameOf⟩ ::
            between.finished } := by
  unfold classDefinition
  simp only [declares_expectKeyword, declares_expectName, declares_parentOf_bind,
    declares_expectSymbol, declares_expectLayout, declares_declare]
  simp only [declares_bind, declares_finish, declares_pure, declares_ofReading, reads_advance]
  constructor
  · rintro ⟨marked, _, hword, name, named, _, hname, parent, header, behind, _, hheader, hparent, -,
      colon, _, hcolon, ended, _, hending, opened, _, hopen, _, closed, _, between, hmethods, _, _,
      _, _, ⟨hclose, rfl⟩, ⟨rfl, rfl⟩, rfl⟩
    -- as with a block, the methods have ended where a `dedent` is
    have hdedent := hmethods.current_methods
    rw [hclose.current_eq] at hdedent
    subst hdedent
    exact ⟨name, parent, header, opened, closed, between, _, hheader,
      (hword.append (hname.append hparent)).append (hcolon.append (hending.append hopen)),
      hmethods, hclose, rfl, rfl⟩
  · rintro ⟨name, parent, header, opened, closed, between, _, hheader, hpass, hmethods, hclose,
      rfl, rfl⟩
    obtain ⟨behind, hpass, hpassEnd⟩ := passes_append.mp hpass
    obtain ⟨marked, hword, hpass⟩ := hpass.split [.keyword .classWord]
    obtain ⟨named, hname, hparent⟩ := hpass.split [.identifier name]
    obtain ⟨colon, hcolon, hpassEnd⟩ := hpassEnd.split [.symbol ':']
    obtain ⟨ended, hending, hopen⟩ := hpassEnd.split [.newline]
    -- without a parent the colon comes next, so no parent is looked for
    have hnone : parent = none → named.current ≠ .symbol '(' := by
      rintro rfl
      cases hheader
      rw [passes_nil.mp hparent, hcolon.current_eq]
      decide
    have hread : Declares (parentOf source named) before parent behind before :=
      declares_parentOf.mpr ⟨⟨header, hheader, hparent, hnone⟩, rfl⟩
    exact ⟨marked, (reads_advance.mpr hword).shorter, hword, name, named,
      (reads_expectName.mpr hname).shorter, hname, parent, header, behind, hread.shorter, hheader,
      hparent, hnone, colon, (reads_advance.mpr hcolon).shorter, hcolon, ended,
      (reads_advance.mpr hending).shorter, hending, opened, (reads_advance.mpr hopen).shorter,
      hopen, (), closed, hmethods.shorter, between, hmethods, _, rest,
      (reads_advance.mpr hclose).shorter, between, ⟨hclose, rfl⟩, ⟨rfl, rfl⟩, rfl⟩

end

/-! ## Whole statements -/

/-- Reads a statement off a shorter tape. -/
abbrev within (source : Nat) (outer : Tape) : Inner outer :=
  fun inMethod shorter _ => statement source inMethod shorter

section

variable {source : Nat} {tape rest : Tape} {inMethod : Bool} {node : Node}

theorem declares_statement_class (hcurrent : tape.current = .keyword .classWord) :
    Declares (statement source inMethod tape) before node rest after ↔
      Declares (classDefinition source (within source tape) tape (Nat.le_refl _)) before node rest
        after := by
  rw [statement, layer]
  simp only [hcurrent]

theorem declares_statement_if (hcurrent : tape.current = .keyword .ifWord) :
    Declares (statement source inMethod tape) before node rest after ↔
      Declares (conditional source (within source tape) inMethod tape (Nat.le_refl _)) before node
        rest after := by
  rw [statement, layer]
  simp only [hcurrent]

theorem declares_statement_line (hclass : tape.current ≠ .keyword .classWord)
    (hif : tape.current ≠ .keyword .ifWord) :
    Declares (statement source inMethod tape) before node rest after ↔
      Declares (line source inMethod tape) before node rest after := by
  rw [statement, layer]
  split
  · exact absurd ‹_› hclass
  · exact absurd ‹_› hif
  · exact Iff.rfl

theorem program_eq_ok_iff {nodes : List Node} :
    program source tape before = .ok nodes after ↔
      (tape.current = .eof ∧ nodes = [] ∧ before = after) ∨
      (tape.current ≠ .eof ∧ ∃ first others behind between,
        Declares (statement source false tape) before first behind between ∧
        program source behind between = .ok others after ∧ nodes = first :: others) := by
  rw [program]
  split
  · rename_i hcurrent
    constructor
    · rintro ⟨⟩
      exact .inl ⟨hcurrent, rfl, rfl⟩
    · rintro (⟨-, rfl, rfl⟩ | ⟨hne, -⟩)
      · rfl
      · exact absurd hcurrent hne
  · rename_i hcurrent
    simp only [bind_eq_ok_iff]
    constructor
    · rintro ⟨first, between, hfirst, others, _, hothers, ⟨⟩⟩
      exact .inr ⟨hcurrent, first.value, others, first.rest, between, ⟨first.shorter, hfirst⟩,
        hothers, rfl⟩
    · rintro (⟨heq, -⟩ | ⟨-, first, others, behind, between, ⟨_, hfirst⟩, hothers, rfl⟩)
      · exact absurd heq hcurrent
      · exact ⟨_, between, hfirst, others, after, hothers, rfl⟩

end

end Offside.Statement
