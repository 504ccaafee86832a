import Offside.Session
import Offside.Proofs.Arithmetic.Evaluation
import Offside.Proofs.Grammar.Acceptance
import Offside.Proofs.Scanning.Line

/-!
# Assigning a formula to a variable

From a text to a variable: a line that assigns a formula to a name is scanned, read and run,
and binds the name to the value of the formula (`Session.run_assignment`).

Each stage takes what the one before it gives.  No two tokens of the line run together
(`Formula.isChain_assigned`), so that they are scanned whatever blanks stand between them
(`Word.scan_writeLine`).  They compose as an assignment, so that they are read as a copy of
its tree (`Formula.read_assigned`), and the copy computes the value.
-/

namespace Offside

/-! ## Tokens that do not run together -/

namespace Token

/-- The first token does not run on into the second one. -/
def PartedFrom (first second : Token) : Prop :=
  first.clings second = false

/-- The token runs together with no other one, on either side. -/
def IsLoose (token : Token) : Prop :=
  ∀ other, token.PartedFrom other ∧ other.PartedFrom token

theorem isLoose_symbol {character : Char} (h : character ∈ ['+', '-', '*', '/', '(', ')']) :
    (symbol character).IsLoose := by
  have hcharacter : (Operator.ofLead? character).isSome = false ∧ character ≠ '=' := by
    fin_cases h <;> decide
  intro other
  have hequals : (symbol character).beginsWithEquals = false := by
    unfold beginsWithEquals
    split <;> simp_all
  constructor
  · simp [PartedFrom, clings, hcharacter.1]
  · cases other <;> simp [PartedFrom, clings, isWord, isNumber, hequals]

/-- A loose token may stand between any others. -/
theorem IsLoose.isChain {token : Token} {front back : List Token} (h : token.IsLoose)
    (hfront : front.IsChain PartedFrom) (hback : back.IsChain PartedFrom) :
    (front ++ token :: back).IsChain PartedFrom := by
  rw [List.isChain_append, List.isChain_cons]
  refine ⟨hfront, ⟨fun next _ => (h next).1, hback⟩, ?_⟩
  intro last _ next hnext
  cases hnext
  exact (h last).2

end Token

namespace Formula

open Expression (arithmeticToken)

theorem isLoose_arithmeticToken (operator : Arithmetic) :
    (arithmeticToken operator).IsLoose := by
  cases operator <;> exact Token.isLoose_symbol (by decide)

theorem isChain_enclose {outer : Expression.Level} {formula : Formula} {words : List Token}
    (h : words.IsChain Token.PartedFrom) :
    (enclose outer formula words).IsChain Token.PartedFrom := by
  unfold enclose
  split
  · exact h
  · have hopened : (Token.symbol '(' :: words).IsChain Token.PartedFrom :=
      (Token.isLoose_symbol (by decide)).isChain .nil h
    exact (Token.isLoose_symbol (by decide)).isChain hopened .nil

/-- No two tokens of a formula run together: between two numbers there is an operator. -/
theorem isChain_tokens (formula : Formula) : formula.tokens.IsChain Token.PartedFrom := by
  induction formula with
  | literal value => exact .singleton _
  | negative operand ih =>
      exact (isLoose_arithmeticToken .subtract).isChain .nil (isChain_enclose ih)
  | operation operator left right ihleft ihright =>
      exact (isLoose_arithmeticToken operator).isChain (isChain_enclose ihleft)
        (isChain_enclose ihright)

/-- The tokens of a line that assigns the formula to a name. -/
def assigned (formula : Formula) (name : String) : List Token :=
  .identifier name :: .symbol '=' :: formula.tokens

theorem isChain_assigned (formula : Formula) (name : String) :
    (formula.assigned name).IsChain Token.PartedFrom := by
  -- the equals sign is not part of an operator, because no formula begins with another one
  obtain ⟨token, rest, htokens, hbegins⟩ := (@derives .empty formula).begins
  have hequals : token.beginsWithEquals = false := by
    unfold Token.beginsWithEquals
    split
    · exact False.elim hbegins
    · exact False.elim hbegins
    · rfl
  have hchain := formula.isChain_tokens
  rw [assigned, htokens] at *
  rw [List.isChain_cons_cons, List.isChain_cons_cons]
  exact ⟨rfl, by simp [Token.PartedFrom, Token.clings, hequals], hchain⟩

end Formula

/-! ## Scanning a line -/

namespace Word

/-- The text of words with blanks behind them, ended by a line feed or by the end of the
text. -/
def writeLine (words : List Word) (blanks : Nat) (ended : Bool) : String :=
  .ofList (words.flatMap Word.write ++
    (List.replicate blanks ' ' ++ if ended then ['\n'] else []))

/-- Words that do not run together are scanned whatever blanks stand between them. -/
theorem scan_writeLine {first : Word} {others : List Word}
    (hchain : ((first :: others).map Word.token).IsChain Token.PartedFrom)
    (hmargin : first.blanks < Scanner.indentWidth) (blanks : Nat) (ended : Bool) :
    ∃ tape, Tape.ofString (writeLine (first :: others) blanks ended) = .ok tape ∧
      tape.fault? = none ∧
      tape.words = (first :: others).map Word.token ++ [.newline, .eof] := by
  have hapart : (first :: others).IsChain Word.Apart := by
    rw [List.isChain_map] at hchain
    refine hchain.imp ?_
    intro word next hends hclings
    exact absurd (hends.symm.trans hclings) Bool.false_ne_true
  have hclosing (line : Nat) : Scanner.Delivers
      ⟨List.replicate blanks ' ' ++ if ended then ['\n'] else [], line, 0, false⟩
      [.newline, .eof] := by
    cases ended with
    | true => exact Scanner.delivers_lineFeed (Scanner.delivers_blanks 0 true 0) blanks line
    | false =>
        simp only [Bool.false_eq_true, if_false, List.append_nil]
        exact Scanner.delivers_blanks 0 false blanks line
  have hends : ∀ character ∈
      (List.replicate blanks ' ' ++ if ended then ['\n'] else []).head?,
      character = '\n' ∨ character = ' ' := by
    intro character hcharacter
    have hmem := List.mem_of_mem_head? hcharacter
    cases ended <;> simp at hmem <;> tauto
  have hdelivers := @Scanner.delivers_words _ 0 true _ first others hapart hends
    (fun _ => Nat.div_eq_of_lt hmargin) hclosing 1
  rw [← Tape.delivers_ofString_iff, Scanner.ofString, Scanner.ofChars, writeLine,
    String.toList_ofList]
  exact hdelivers

end Word

/-! ## Reading an assignment -/

namespace Formula

open Statement (Composes Simple)

theorem composes_assigned (formula : Formula) (name : String) (known : Statement.Known) :
    Composes known (.statements false [.assign name formula.node])
      (formula.assigned name ++ [.newline]) [] known := by
  have hsimple : Simple known.names false (.assign name formula.node) (formula.assigned name) :=
    .assignment false name [] (formula.derives.of_rank_le (Nat.zero_le _))
  have hstatements := Composes.statementsMore (.simple hsimple) (.statementsEnd known false)
  rwa [List.append_nil] at hstatements

/-- The tokens of an assignment are read as a copy of its tree. -/
theorem read_assigned {formula : Formula} {name : String} {source : Nat} {classes : Classes}
    {names : Bindings ClassId} {tape : Tape} (hscanned : tape.fault? = none)
    (hwords : tape.words = formula.assigned name ++ [.newline, .eof]) :
    ∃ copy, (Program.read source classes names tape).result =
        .ok (.block [.assign name copy]) ∧ copy.Mirrors id formula.node := by
  rw [← List.singleton_append, ← List.append_assoc] at hwords
  obtain ⟨copies, hread, hmirrors, -⟩ :=
    Program.read_of_composes (formula.composes_assigned name _)
      (@Statement.Matches.refl ⟨classes, names, []⟩) hscanned hwords source
  obtain ⟨statement, others, rfl, hstatement, hothers⟩ := hmirrors.of_cons
  obtain rfl := hothers.eq_nil
  obtain ⟨copy, rfl, hcopy⟩ := hstatement.of_assign
  exact ⟨copy, hread, hcopy⟩

end Formula

/-! ## Running an assignment -/

namespace Session

/-- Assigning binds the name to what the value is run for, and a fault leaves it unbound. -/
theorem executeProgram_assign {classes : Classes} {fuel : Nat} {name : String} {value : Node}
    (state : State) :
    executeProgram classes (fuel + 2) (.block [.assign name value]) state =
      match Offside.execute classes fuel value state with
      | .ok (.returned inner) after =>
        .error (.fault .returnOutsideMethod)
          { after with scope := after.scope.set name (.returned inner) }
      | .ok given after => .ok .empty { after with scope := after.scope.set name given }
      | .error reason after => .error reason after := by
  cases hresult : Offside.execute classes fuel value state with
  | error reason after =>
      simp [executeProgram, Offside.execute, Run.sequence, Bind.bind, EStateM.bind, hresult]
  | ok given after =>
      cases given <;>
        simp [executeProgram, Offside.execute, Run.sequence, Run.assign, Bind.bind, EStateM.bind,
          Pure.pure, EStateM.pure, Run.fail, hresult]

/-- What comes of assigning what is computed. -/
theorem execute_assign {session : Session} {program : Program} {name : String} {value : Node}
    {fuel : Nat} {expected : Option Int}
    (h : Run.Computes (Offside.execute program.declared.classes fuel value) expected) :
    ∃ report, session.execute (fuel + 2) program (.block [.assign name value]) = report ∧
      report.output = "" ∧
      (∀ number, expected = some number → report.conclusion = .finished ∧
        ∃ origin owning, report.session.globals =
          session.globals.set name (.holding (.number origin number) owning)) ∧
      (expected = none → report.conclusion = .failed (.run .divisionByZero) ∧
        report.session.globals = session.globals) := by
  refine ⟨_, rfl, ?_⟩
  have hgives := h ⟨session.heap, session.globals, ""⟩
  simp only [Session.execute, executeProgram_assign]
  generalize Offside.execute program.declared.classes fuel value
    ⟨session.heap, session.globals, ""⟩ = result at hgives ⊢
  cases hgives with
  | number origin value owning heap =>
      refine ⟨rfl, ?_, nofun⟩
      intro number hnumber
      cases hnumber
      exact ⟨rfl, origin, owning, rfl⟩
  | divisionByZero heap => exact ⟨rfl, nofun, fun _ => ⟨rfl, rfl⟩⟩

/-- A line that assigns a formula to a name binds the name to the value of the formula, which
has one value then.  Where a divisor is zero it is a division by zero, and nothing is bound.
Nothing is written either way. -/
theorem run_assignment (session : Session) {formula : Formula} {name : String} {first : Word}
    {others : List Word} {fuel : Nat}
    (hwords : (first :: others).map Word.token = formula.assigned name)
    (hmargin : first.blanks < Scanner.indentWidth) (hfuel : formula.height + 2 ≤ fuel)
    (blanks : Nat) (ended : Bool) :
    ∃ report, session.run fuel (Word.writeLine (first :: others) blanks ended) = report ∧
      report.output = "" ∧
      (¬ formula.DividesByZero → ∃ value, formula.Evaluates value ∧
        (∀ other, formula.Evaluates other → other = value) ∧
        report.conclusion = .finished ∧
        ∃ origin owning, report.session.globals =
          session.globals.set name (.holding (.number origin value) owning)) ∧
      (formula.DividesByZero → report.conclusion = .failed (.run .divisionByZero) ∧
        report.session.globals = session.globals) := by
  obtain ⟨tape, htape, hscanned, htokens⟩ :=
    Word.scan_writeLine (hwords ▸ formula.isChain_assigned name) hmargin blanks ended
  rw [hwords] at htokens
  obtain ⟨copy, hread, hcopy⟩ := @Formula.read_assigned _ _ session.sources session.classes
    session.globals.classes _ hscanned htokens
  have hrun : session.run fuel (Word.writeLine (first :: others) blanks ended) =
      session.execute fuel
        (Program.read session.sources session.classes session.globals.classes tape)
        (.block [.assign name copy]) := by
    simp only [Session.run, Session.read, htape, Except.map, hread]
  obtain ⟨less, rfl⟩ : ∃ less, fuel = less + 2 :=
    Nat.exists_eq_add_of_le' (Nat.le_of_add_left_le hfuel)
  rw [hrun]
  obtain ⟨report, hreport, houtput, hvalue, hzero⟩ :=
    execute_assign (formula.computes_execute hcopy (Nat.le_of_add_le_add_right hfuel))
  refine ⟨report, hreport, houtput, ?_, ?_⟩
  · intro hnonzero
    obtain ⟨value, hsome⟩ :=
      Option.ne_none_iff_exists'.mp (mt Formula.value?_eq_none_iff.mp hnonzero)
    have hevaluates := Formula.value?_eq_some_iff.mp hsome
    exact ⟨value, hevaluates, fun other hother => hother.unique hevaluates, hvalue value hsome⟩
  · exact fun hdivides => hzero (Formula.value?_eq_none_iff.mpr hdivides)

/-- A quotient of a negative number, whose divisor needs parentheses. -/
theorem run_assignment_sample :
    ∃ report, Session.empty.run 6 "x = -7/(1--1) \n" = report ∧ report.output = "" ∧
      report.conclusion = .finished ∧
      ∃ origin owning, report.session.globals =
        Bindings.empty.set "x" (.holding (.number origin (-3)) owning) := by
  let formula : Formula :=
    .operation .divide (.negative (.literal 7))
      (.operation .subtract (.literal 1) (.negative (.literal 1)))
  have hname : Token.IsName "x" :=
    ⟨⟨'x', [], rfl, rfl, nofun⟩, fun word => by cases word <;> decide⟩
  have hx : (Token.identifier "x").Spells ['x'] :=
    @Token.spells_write _ '"' hname rfl
  have hseven : (Token.number 7).Spells ['7'] :=
    @Token.Spells.number ['7'] nofun (List.all_eq_true.mp rfl) (by decide)
  have hone : (Token.number 1).Spells ['1'] :=
    @Token.Spells.number ['1'] nofun (List.all_eq_true.mp rfl) (by decide)
  have hminus : (Token.symbol '-').Spells ['-'] := .symbol (.inl (by decide))
  let others : List Word :=
    [⟨_, 1, _, .symbol (.inr (by decide : (Operator.ofLead? '=').isSome = true))⟩,
      ⟨_, 1, _, hminus⟩, ⟨_, 0, _, hseven⟩,
      ⟨_, 0, _, .symbol (.inl (by decide : '/' ∈ Lexeme.soloSymbols))⟩,
      ⟨_, 0, _, .symbol (.inl (by decide : '(' ∈ Lexeme.soloSymbols))⟩,
      ⟨_, 0, _, hone⟩, ⟨_, 0, _, hminus⟩, ⟨_, 0, _, hminus⟩, ⟨_, 0, _, hone⟩,
      ⟨_, 0, _, .symbol (.inl (by decide : ')' ∈ Lexeme.soloSymbols))⟩]
  have hvalue : formula.value? = some (-3) := rfl
  obtain ⟨report, hreport, houtput, hfinished, -⟩ :=
    @run_assignment Session.empty formula "x" ⟨_, 0, _, hx⟩ others 6 rfl Nat.zero_lt_two
      (by decide) 1 true
  have hnonzero : ¬ formula.DividesByZero := by
    intro hdivides
    cases hvalue.symm.trans (Formula.value?_eq_none_iff.mpr hdivides)
  obtain ⟨value, -, hunique, hends⟩ := hfinished hnonzero
  rw [← hunique (-3) (Formula.value?_eq_some_iff.mp hvalue)] at hends
  exact ⟨report, hreport, houtput, hends⟩

end Session

end Offside
