import Offside.Proofs.Grammar.Concatenation
import Offside.Proofs.Grammar.Coverage
import Offside.Proofs.Scanning.Balance

/-!
# Blocks are closed

The marks on the tape of a text open and close the blocks of the parser.  At every point of
reading a program, the tokens that were passed hold as many `indent` more than `dedent` as suites
and class bodies are open (`Stands.leavesOpen`).  The scanner closes all blocks before the end of
the source, and none that it did not open, so the parser never meets the end inside of a block, and
never the end of a block outside of all of them.

The balance is a fact about steps: what is read to its end is balanced (`Composes.leavesOpen`), the
head before a block ends with its `indent`, and everything else that a stage passes is of one level.
-/

namespace Offside

namespace Statement

open Tape

variable {source : Nat} {before after : Declared} {tape here rest : Tape}
  {first next stage : Stage} {opened blocks : List Block} {inMethod : Bool} {tokens : List Token}

/-! ## What is read to its end -/

theorem IsLevel.leavesOpen (h : IsLevel tokens) : LeavesOpen tokens 0 := by
  have hindent : tokens.count .indent = 0 :=
    List.count_eq_zero.mpr fun hmem => h _ hmem (.inl rfl)
  have hdedent : tokens.count .dedent = 0 :=
    List.count_eq_zero.mpr fun hmem => h _ hmem (.inr rfl)
  rw [LeavesOpen, hindent, hdedent]

theorem Inherits.isLevel {names : Bindings ClassId} {parent : Option ClassId}
    (h : Inherits names parent tokens) : IsLevel tokens := by
  cases h <;> simp [IsLevel, Token.IsMargin]

theorem isLevel_headTokens {names : Bindings ClassId} {parent : Option ClassId}
    (h : Inherits names parent tokens) (name : String) :
    IsLevel (.keyword .classWord :: .identifier name :: tokens ++ [.symbol ':', .newline]) := by
  have hword : IsLevel [.keyword .classWord, .identifier name] := by
    simp [IsLevel, Token.IsMargin]
  have hend : IsLevel [.symbol ':', .newline] := by
    simp [IsLevel, Token.IsMargin]
  exact (hword.append h.isLevel).append hend

/-- A clause closes the blocks that it opens. -/
theorem Composes.leavesOpen {known last : Known} {clause : Clause} {made : List ClassRecord}
    (h : Composes known clause tokens made last) : LeavesOpen tokens 0 := by
  have hnewline : LeavesOpen [.newline] 0 := rfl
  induction h with
  | simple h => exact h.isPlain.isLevel.leavesOpen.append hnewline
  | ifThen hcondition _ ih =>
      simpa using (isPlain_condition hcondition).isLevel.leavesOpen.append ih
  | ifThenElse hcondition _ _ ih ih' =>
      have hconsequent := (isPlain_condition hcondition).isLevel.leavesOpen.append ih
      have halternative := isPlain_otherwise.isLevel.leavesOpen.append ih'
      simpa using hconsequent.append halternative
  | @classDefinition _ _ _ name _ _ _ _ _ hparent _ _ ih =>
      simpa using (isLevel_headTokens hparent name).leavesOpen.append ih.enclose
  | suite _ _ ih => exact hnewline.append ih.enclose
  | statementsEnd => exact .nil
  | statementsMore _ _ ih ih' => exact ih.append ih'
  | @method _ _ name names _ _ _ _ ih =>
      simpa using (isPlain_methodHead name names).isLevel.leavesOpen.append ih
  | methodsEnd => exact .nil
  | methodsMore _ _ ih ih' => exact ih.append ih'

theorem Spans.leavesOpen {clause : Clause} (h : Spans before tape clause rest after) :
    ∃ tokens, Passes tape tokens rest ∧ LeavesOpen tokens 0 := by
  obtain ⟨tokens, made, hpass, hcomposes, -⟩ := h
  exact ⟨tokens, hpass, hcomposes.leavesOpen⟩

/-! ## What is passed on the way from one stage to another -/

/-- A reading of a stage itself leaves a block open only with its last token. -/
theorem KeepsLevel.leavesOpen {α : Type} {bound depth : Nat} {last : List Token}
    {reading : Declaring (Step α bound)} {value : α} (h : KeepsLevel last tape before reading)
    (hlast : LeavesOpen last depth) (hread : Declares reading before value rest after) :
    ∃ tokens, Passes tape tokens rest ∧ LeavesOpen tokens depth := by
  obtain ⟨-, tokens, hpass, hlevel⟩ := h.of_declares hread
  refine ⟨tokens ++ last, hpass, ?_⟩
  simpa using hlevel.leavesOpen.append hlast

/-- Behind the first suite of a conditional all of its blocks are closed. -/
theorem leavesOpen_consequent {outer began behind : Tape} {ready between : Declared}
    {condition consequent : Node} {h : began.length ≤ outer.length} (hlaid : tape.Laid)
    (hhead : Declares (conditionHead source tape) before condition began ready)
    (hconsequent :
      Declares (suite (within source outer) inMethod began h) ready consequent behind between) :
    ∃ tokens, Passes tape tokens behind ∧ LeavesOpen tokens 0 := by
  obtain ⟨tokens, hpass, hopen⟩ := keepsLevel_conditionHead.leavesOpen .nil hhead
  obtain ⟨more, hmore, hopen'⟩ :=
    (spans_of_suite spans_of_statement (hlaid.of_passes hpass) hconsequent).leavesOpen
  exact ⟨tokens ++ more, hpass.append hmore, hopen.append hopen'⟩

/-- Every block that is opened on the way to a stage is an `indent` more. -/
theorem Enters.leavesOpen (h : Enters source first opened next) (hlaid : first.tape.Laid) :
    ∃ tokens, Passes first.tape tokens next.tape ∧ LeavesOpen tokens opened.length := by
  cases h with
  | first => exact ⟨[], .stay _, .nil⟩
  | rest _ hfirst => exact (spans_of_statement hlaid hfirst).leavesOpen
  | consequent _ hhead => exact keepsLevel_conditionHead.leavesOpen .nil hhead
  | alternative _ hhead hconsequent helse hword =>
      obtain ⟨tokens, hpass, hopen⟩ := leavesOpen_consequent hlaid hhead hconsequent
      obtain ⟨more, hmore, hopen'⟩ := (keepsLevel_elseHead helse).leavesOpen .nil hword
      exact ⟨tokens ++ more, hpass.append hmore, hopen.append hopen'⟩
  | body _ hhead _ => exact keepsLevel_classHead.leavesOpen .indent hhead
  | block hhead => exact keepsLevel_suiteHead.leavesOpen .indent hhead
  | inner => exact ⟨[], .stay _, .nil⟩
  | others _ _ hfirst => exact (spans_of_statement hlaid hfirst).leavesOpen
  | signature hhead => exact keepsLevel_methodSignature.leavesOpen .nil hhead
  | method => exact ⟨[], .stay _, .nil⟩
  | methods _ hfirst _ => exact (spans_of_method spans_of_statement hlaid hfirst).leavesOpen

theorem Reaches.leavesOpen (h : Reaches source first blocks stage) (hlaid : first.tape.Laid) :
    ∃ tokens, Passes first.tape tokens stage.tape ∧ LeavesOpen tokens blocks.length := by
  induction h with
  | here => exact ⟨[], .stay _, .nil⟩
  | step henters _ ih =>
      obtain ⟨tokens, hpass, hopen⟩ := henters.leavesOpen hlaid
      obtain ⟨more, hmore, hopen'⟩ := ih (hlaid.of_passes hpass)
      refine ⟨tokens ++ more, hpass.append hmore, ?_⟩
      rw [List.length_append]
      exact hopen.append hopen'

/-- What a stage itself has before it is on the level of the stage. -/
theorem Stage.Shows.leavesOpen (h : stage.Shows source here) (hlaid : stage.tape.Laid)
    (hcounted : stage.tape.Counted) :
    ∃ tokens, Passes stage.tape tokens here ∧ LeavesOpen tokens 0 := by
  have hlevel {α : Type} {bound : Nat} {last : List Token} {tape : Tape} {declared : Declared}
      {reading : Declaring (Step α bound)} (hkeeps : KeepsLevel last tape declared reading)
      (hlast : last.length ≤ 1) (hcounted : tape.Counted)
      (hcomes : ComesBy tape declared reading here) :
      ∃ tokens, Passes tape tokens here ∧ LeavesOpen tokens 0 := by
    obtain ⟨tokens, hpass, hlevel⟩ := hkeeps.level_of_comesBy hlast hcounted hcomes
    exact ⟨tokens, hpass, hlevel.leavesOpen⟩
  cases h with
  | first => exact ⟨[], .stay _, .nil⟩
  | line _ _ hcomes => exact hlevel keepsLevel_line (by simp) hcounted hcomes
  | condition _ hcomes => exact hlevel keepsLevel_conditionHead (by simp) hcounted hcomes
  | otherwise _ hhead hconsequent helse hcomes =>
      obtain ⟨tokens, hpass, hopen⟩ := leavesOpen_consequent hlaid hhead hconsequent
      obtain ⟨more, hmore, hopen'⟩ :=
        hlevel (keepsLevel_elseHead helse) (by simp) (hcounted.of_passes hpass) hcomes
      exact ⟨tokens ++ more, hpass.append hmore, hopen.append hopen'⟩
  | header _ hcomes => exact hlevel keepsLevel_classHead (by simp) hcounted hcomes
  | opening hcomes => exact hlevel keepsLevel_suiteHead (by simp) hcounted hcomes
  | signature hcomes => exact hlevel keepsLevel_methodSignature (by simp) hcounted hcomes

/-- As many blocks are open as were opened by the tokens that were passed. -/
theorem Stands.leavesOpen (h : Stands source first blocks here) (hlaid : first.tape.Laid)
    (hcounted : first.tape.Counted) :
    ∃ tokens, Passes first.tape tokens here ∧ LeavesOpen tokens blocks.length := by
  obtain ⟨stage, hreaches, hshows⟩ := h
  obtain ⟨tokens, hpass, hopen⟩ := hreaches.leavesOpen hlaid
  obtain ⟨more, hmore, hopen'⟩ :=
    hshows.leavesOpen (hlaid.of_passes hpass) (hcounted.of_passes hpass)
  exact ⟨tokens ++ more, hpass.append hmore, hopen.append hopen'⟩

/-! ## What is read inside of a block only -/

/-- Only what is inside of a suite or a class body is read so. -/
def Task.InBlock : Task → Prop
  | .program | .statement _ | .suite _ => False
  | .statements _ | .method | .methods _ => True

theorem Reaches.opens (h : Reaches source first blocks stage) (hfirst : ¬ first.task.InBlock)
    (hstage : stage.task.InBlock) : blocks ≠ [] := by
  induction h with
  | here => exact absurd hstage hfirst
  | step henters _ ih =>
      intro hnil
      obtain ⟨hopened, hblocks⟩ := List.append_eq_nil_iff.mp hnil
      refine ih (fun hnext => ?_) hstage hblocks
      -- what is read inside of a block only is entered from there, or where a block is opened
      cases henters <;> simp_all [Task.InBlock]

/-! ## Statements and methods of a block -/

theorem exists_of_suite {outer : Tape} {node : Node} {h : tape.length ≤ outer.length}
    (hlaid : tape.Laid)
    (hread : Declares (suite (within source outer) inMethod tape h) before node rest after) :
    ∃ first others, node = .block (first :: others) := by
  obtain ⟨tokens, made, -, hcomposes, -⟩ := spans_of_suite spans_of_statement hlaid hread
  cases hcomposes with
  | @suite _ _ _ nodes _ _ _ hsome =>
      obtain ⟨first, others, rfl⟩ := List.exists_cons_of_ne_nil hsome
      exact ⟨first, others, rfl⟩

/-- A class has methods. -/
theorem Composes.exists_method {known last : Known} {node : Node} {made : List ClassRecord}
    (h : Composes known (.statement inMethod node) (.keyword .classWord :: tokens) made last) :
    ∃ record others, node = .classDefinition known.count ∧ made = record :: others ∧
      record.methods ≠ [] := by
  generalize hwhole : .keyword .classWord :: tokens = whole at h
  cases h with
  | @simple _ _ _ line hline =>
      -- no line begins with the word
      cases line with
      | nil => cases hwhole
      | cons token line =>
          cases hwhole
          exact absurd rfl (hline.isPlain _ List.mem_cons_self).1
  | ifThen => cases hwhole
  | ifThenElse => cases hwhole
  | classDefinition _ _ _ hsome => exact ⟨_, _, rfl, rfl, hsome⟩

theorem exists_of_class {node : Node} (hlaid : tape.Laid)
    (hcurrent : tape.current = .keyword .classWord)
    (hread : Declares (statement source inMethod tape) before node rest after) :
    ∃ record, node = .classDefinition before.classes.count ∧
      after.classes.get? before.classes.count = some record ∧ record.methods ≠ [] := by
  obtain ⟨tokens, made, hpass, hcomposes, hmade⟩ := spans_of_statement hlaid hread
  cases tokens with
  | nil =>
      have hlength := hpass.length_eq
      have hshorter := hread.shorter
      rw [List.length_nil] at hlength
      omega
  | cons token tokens =>
      rw [← hpass.current_eq, hcurrent] at hcomposes
      obtain ⟨record, others, hnode, rfl, hmethods⟩ := hcomposes.exists_method
      refine ⟨record, hnode, ?_, hmethods⟩
      rw [Classes.get?, ← Array.getElem?_toList, hmade, ← Classes.length_toList_records]
      simp

/-! ## Programs -/

section

variable {text : String} (h : Tape.ofString text = .ok tape)
include h

/-- The tokens between the start of a text and where the parser stands. -/
theorem Stands.exists_passes (hstands : Stands source ⟨.program, tape, before⟩ blocks here) :
    ∃ passed, Passes tape passed here ∧ LeavesOpen passed blocks.length :=
  hstands.leavesOpen (laid_of_ofString h) (counted_of_layFrom h rfl).1

theorem Stands.current_ne_eof (hstands : Stands source ⟨.program, tape, before⟩ blocks here)
    (hblocks : blocks ≠ []) : here.current ≠ .eof := by
  obtain ⟨passed, hpass, hopen⟩ := hstands.exists_passes h
  intro hcurrent
  have hlength := hopen.eq_zero_of_eof h hpass hcurrent
  exact hblocks (List.length_eq_zero_iff.mp hlength)

theorem Stands.closed_ahead (hstands : Stands source ⟨.program, tape, before⟩ blocks here)
    (hfault : here.fault? = none) :
    here.words.count .dedent = here.words.count .indent + blocks.length := by
  obtain ⟨passed, hpass, hopen⟩ := hstands.exists_passes h
  exact LeavesOpen.closed_ahead hopen h hpass hfault

theorem Stands.current_ne_dedent (hstands : Stands source ⟨.program, tape, before⟩ [] here) :
    here.current ≠ .dedent := by
  obtain ⟨passed, hpass, hopen⟩ := hstands.exists_passes h
  intro hcurrent
  exact absurd (hopen.pos_of_dedent h hpass hcurrent) (Nat.lt_irrefl 0)

theorem Reaches.laid (hreaches : Reaches source ⟨.program, tape, before⟩ blocks stage) :
    stage.tape.Laid := by
  obtain ⟨tokens, hpass, -⟩ := hreaches.leavesOpen (laid_of_ofString h)
  exact (laid_of_ofString h).of_passes hpass

/-- Up to the token that is refused, if one is, the parser stands before every token. -/
theorem exists_stands (hpass : Passes tape tokens here)
    (hreached : ∀ refusal after, program source tape before = .error refusal after →
      here.place.index ≤ refusal.reached) :
    ∃ blocks, Stands source ⟨.program, tape, before⟩ blocks here := by
  refine stands_of_program (laid_of_ofString h) hpass fun refusal after herror => ?_
  obtain ⟨passed, stuck, hstuck, hindex, -⟩ := refused_of_program herror
  have hle : here.place.index ≤ stuck.place.index := hindex ▸ hreached refusal after herror
  obtain ⟨more, hmore⟩ := hpass.exists_of_le hstuck (counted_of_layFrom h rfl).1 hle
  exact ⟨more, stuck, hmore, hindex⟩

theorem cause_ne_unclosedBlock {refusal : Refusal}
    (herror : program source tape before = .error refusal after) :
    refusal.fault.cause ≠ .unclosedBlock := by
  intro hcause
  obtain ⟨tokens, stuck, hpass, -, hunclosed⟩ := refused_of_program herror
  obtain hfault | ⟨blocks, inMethod, declared, hreaches, heof⟩ := hunclosed hcause
  · -- the scanner knows no blocks that are not closed
    have hlexical := isLexical_of_ofString h (hpass.fault?_eq.trans hfault)
    rw [hcause] at hlexical
    cases hlexical
  · have hblocks : blocks ≠ [] := hreaches.opens (by simp [Task.InBlock]) trivial
    exact hreaches.stands.current_ne_eof h hblocks heof

end

/-- Reading a tape as a program keeps to the blocks of the tape. -/
structure MatchesBlocks (source : Nat) (tape : Tape) (before : Declared) : Prop where
  /-- The tokens that were passed open as many blocks more than they close as suites and class
  bodies are open. -/
  balance : ∀ {blocks : List Block} {here : Tape},
    Stands source ⟨.program, tape, before⟩ blocks here →
      ∃ passed, Passes tape passed here ∧
        passed.count .indent = passed.count .dedent + blocks.length
  /-- There is no other point: the parser stands with some blocks open before every token that it
  gets to, the one that it refuses included. -/
  everywhere : ∀ {passed : List Token} {here : Tape}, Passes tape passed here →
    (∀ refusal after, program source tape before = .error refusal after →
      here.place.index ≤ refusal.reached) →
    ∃ blocks, Stands source ⟨.program, tape, before⟩ blocks here
  /-- Inside of a block the source does not end, and if it comes to its end at all, the block is
  closed before. -/
  inside : ∀ {blocks : List Block} {here : Tape},
    Stands source ⟨.program, tape, before⟩ blocks here → blocks ≠ [] →
      here.current ≠ .eof ∧ (here.fault? = none →
        here.words.count .dedent = here.words.count .indent + blocks.length)
  /-- Outside of all blocks no block is closed. -/
  outside : ∀ {here : Tape}, Stands source ⟨.program, tape, before⟩ [] here →
    here.current ≠ .dedent
  /-- A suite has a statement. -/
  suites : ∀ {blocks : List Block} {inMethod : Bool} {outer began rest : Tape}
    {between after : Declared} {node : Node} {h : began.length ≤ outer.length},
    Reaches source ⟨.program, tape, before⟩ blocks ⟨.suite inMethod, began, between⟩ →
    Declares (suite (within source outer) inMethod began h) between node rest after →
      ∃ first others, node = .block (first :: others)
  /-- A class has a method. -/
  classes : ∀ {blocks : List Block} {inMethod : Bool} {began rest : Tape}
    {between after : Declared} {node : Node},
    Reaches source ⟨.program, tape, before⟩ blocks ⟨.statement inMethod, began, between⟩ →
    began.current = .keyword .classWord →
    Declares (statement source inMethod began) between node rest after →
      ∃ record, node = .classDefinition between.classes.count ∧
        after.classes.get? between.classes.count = some record ∧ record.methods ≠ []
  /-- No block is found unclosed. -/
  closed : ∀ {refusal : Refusal} {after : Declared},
    program source tape before = .error refusal after → refusal.fault.cause ≠ .unclosedBlock

/-- The blocks of every text are closed for the parser. -/
theorem matchesBlocks_ofString {text : String} (h : Tape.ofString text = .ok tape) (source : Nat)
    (before : Declared) : MatchesBlocks source tape before where
  balance hstands := hstands.exists_passes h
  everywhere hpass hreached := exists_stands h hpass hreached
  inside hstands hblocks := ⟨hstands.current_ne_eof h hblocks, hstands.closed_ahead h⟩
  outside hstands := hstands.current_ne_dedent h
  suites hreaches hread := exists_of_suite (hreaches.laid h) hread
  classes hreaches hcurrent hread := exists_of_class (hreaches.laid h) hcurrent hread
  closed herror := cause_ne_unclosedBlock h herror

/-- Behind eighteen tokens of this text a class, a method and a conditional are open. -/
theorem matchesBlocks_sample :
    ∃ tape here blocks,
      Tape.ofString "class A:\n  def f(x):\n    if x:\n      return x\n" = .ok tape ∧
      MatchesBlocks 0 tape ⟨.empty, .empty, []⟩ ∧ here.place.index = 18 ∧
      Stands 0 ⟨.program, tape, ⟨.empty, .empty, []⟩⟩ blocks here ∧ blocks.length = 3 := by
  have hread : ((Tape.ofString "class A:\n  def f(x):\n    if x:\n      return x\n").map
      fun tape => ((tape.fault?, tape.length, (Program.read 0 .empty .empty tape).result.toBool),
        (tape.words.take 18).count .indent, (tape.words.take 18).count .dedent)) =
      .ok ((none, 24, true), 3, 0) := by
    decide +kernel
  obtain ⟨tape, htape, hfacts⟩ := Program.exists_of_map_eq_ok hread
  obtain ⟨hscanned, hcounts⟩ := Prod.mk.inj hfacts
  obtain ⟨hfault, hscanned⟩ := Prod.mk.inj hscanned
  obtain ⟨hlength, hresult⟩ := Prod.mk.inj hscanned
  obtain ⟨hindents, hdedents⟩ := Prod.mk.inj hcounts
  have hmatches := matchesBlocks_ofString htape 0 ⟨.empty, .empty, []⟩
  -- the place is one on the way to the end of the source
  obtain ⟨tokens, place, beforeLast, hpass⟩ := passes_of_fault?_eq_none hfault
  rw [← List.take_append_drop 18 tokens] at hpass
  obtain ⟨here, hhere, -⟩ := hpass.split (tokens.take 18)
  have hindex : here.place.index = 18 := by
    obtain ⟨hcounted, hfirst⟩ := counted_of_layFrom htape rfl
    rw [List.take_append_drop] at hpass
    have htokens : tape.length = tokens.length := hpass.length_eq
    rw [hhere.index_eq hcounted, hfirst, List.length_take, ← htokens, hlength]
    rfl
  obtain ⟨blocks, hstands⟩ := hmatches.everywhere hhere fun refusal after herror => by
    rw [Program.read, herror] at hresult
    cases hresult
  obtain ⟨passed, hpassed, hbalance⟩ := hmatches.balance hstands
  rw [hpassed.eq_take htape, hindex, hindents, hdedents, Nat.zero_add] at hbalance
  exact ⟨tape, here, blocks, htape, hmatches, hindex, hstands, hbalance.symm⟩

end Statement

end Offside
