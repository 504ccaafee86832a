import Offside.Proofs.Grammar.Nesting
import Offside.Proofs.Reading.Offence

/-!
# Every token is met somewhere

Wherever a reader comes by on its tape, the parser stands inside of the stage that the reader
belongs to, so `Stands` leaves out no place.  `Charts` says so of one reading, and says what the
reading passes and where it is refused.  There is one lemma for every reader, and `Charts.bind` puts
them together as the readers are put together; a reading that belongs to another stage is entered
(`Charts.enter`).

A block that is not closed has one cause: the statements of a suite come to the end of the source
(`RefusedInside`).
-/

namespace Offside.Statement

open Tape
open Declaring (ofReading inSetting)

variable {source : Nat} {α β : Type} {bound larger : Nat} {before after between : Declared}
  {tape here rest outer : Tape} {first next stage : Stage} {opened blocks : List Block}
  {refusal : Refusal} {last tokens : List Token} {inMethod : Bool}

/-! ## Chains -/

theorem Stands.step (h : Enters source first opened next)
    (hstands : Stands source next blocks here) : Stands source first (opened ++ blocks) here := by
  obtain ⟨stage, hreaches, hshows⟩ := hstands
  exact ⟨stage, .step h hreaches, hshows⟩

/-- The parser stands where it has come to. -/
theorem Reaches.stands (h : Reaches source first blocks stage) :
    Stands source first blocks stage.tape :=
  ⟨stage, h, .first stage⟩

/-- The statements of a suite are read up to where they end. -/
theorem reaches_of_statements {h : tape.length < outer.length} {nodes : List Node}
    (hread : Declares (statements (within source outer) inMethod tape h) before nodes rest after) :
    Reaches source ⟨.statements inMethod, tape, before⟩ [] ⟨.statements inMethod, rest, after⟩ := by
  induction tape using shorter_induction generalizing before nodes with
  | step tape ih =>
      rcases declares_statements.mp hread with ⟨-, rfl, rfl, rfl⟩ |
        ⟨hdedent, heof, node, others, behind, between, _, hfirst, hothers, rfl⟩
      · exact .here _
      · exact .step (.others hdedent heof hfirst) (ih behind hfirst.shorter hothers)

/-- The methods of a class are read up to where they end. -/
theorem reaches_of_methods {h : tape.length < outer.length} {cls : ClassId}
    (hread : Declares (methods (within source outer) cls tape h) before () rest after) :
    Reaches source ⟨.methods cls, tape, before⟩ [] ⟨.methods cls, rest, after⟩ := by
  induction tape using shorter_induction generalizing before with
  | step tape ih =>
      rcases declares_methods.mp hread with ⟨-, rfl, rfl⟩ |
        ⟨hdedent, definition, behind, between, _, hfirst, hothers⟩
      · exact .here _
      · exact .step (.methods hdedent hfirst rfl) (ih behind hfirst.shorter hothers)

/-! ## What a reading goes through -/

/-- A reading that belongs to a stage is refused somewhere on its tape.  It is refused because of a
block that is not closed only if a fault of the tape says so, or if the statements of a suite have
come to the end of the source. -/
def RefusedInside (source : Nat) (stage : Stage) (tape : Tape) (refusal : Refusal) : Prop :=
  ∃ tokens stuck, Passes tape tokens stuck ∧ refusal.reached = stuck.place.index ∧
    (refusal.fault.cause = .unclosedBlock → stuck.fault? = some refusal.fault ∨
      ∃ blocks inMethod declared,
        Reaches source stage blocks ⟨.statements inMethod, stuck, declared⟩ ∧ stuck.current = .eof)

theorem RefusedInside.behind (h : RefusedInside source stage rest refusal)
    (hpass : Passes tape tokens rest) : RefusedInside source stage tape refusal := by
  obtain ⟨more, stuck, hmore, hrefused⟩ := h
  exact ⟨tokens ++ more, stuck, hpass.append hmore, hrefused⟩

theorem RefusedInside.enter (h : RefusedInside source next tape refusal)
    (henters : Enters source stage opened next) : RefusedInside source stage tape refusal := by
  obtain ⟨tokens, stuck, hpass, hreached, hcause⟩ := h
  refine ⟨tokens, stuck, hpass, hreached, fun hunclosed => ?_⟩
  obtain hfault | ⟨blocks, inMethod, declared, hreaches, heof⟩ := hcause hunclosed
  · exact .inl hfault
  · exact .inr ⟨_, inMethod, declared, .step henters hreaches, heof⟩

/-- A token that is refused for what it is leaves no block unclosed. -/
theorem refusedInside_of_refusedAt {stuck : Tape} (hpass : Passes tape tokens stuck)
    (h : RefusedAt stuck refusal) : RefusedInside source stage tape refusal :=
  ⟨tokens, stuck, hpass, h.1, fun hcause => .inl (h.2 hcause)⟩

/-- A reading is part of reading a stage: wherever it comes by, the parser stands inside of that
stage. -/
structure Charts (source : Nat) (stage : Stage) (tape : Tape) (before : Declared)
    (reading : Declaring (Step α bound)) : Prop where
  passes : ∀ value rest after, Declares reading before value rest after →
    ∃ tokens, Passes tape tokens rest
  stands : tape.Laid → ∀ here, ComesBy tape before reading here →
    ∃ blocks, Stands source stage blocks here
  refused : ∀ refusal after, reading before = .error refusal after →
    RefusedInside source stage tape refusal

theorem charts_pure {step : Step α bound} (h : step.rest = tape) :
    Charts source stage tape before (pure step) where
  passes value rest after hread := by
    obtain ⟨⟨-, rfl⟩, -⟩ := declares_pure.mp hread
    exact ⟨[], passes_nil.mpr h.symm⟩
  stands _ here hcomes := by
    obtain ⟨tokens, later, hpass, hlater, hne⟩ := hcomes
    rw [h] at hlater
    exact absurd (List.append_eq_nil_iff.mp (hpass.append hlater).eq_nil).2 hne
  refused refusal after herror := by cases herror

theorem Charts.bind {reading : Declaring (Step α bound)}
    {next : Step α bound → Declaring (Step β larger)} (h : Charts source stage tape before reading)
    (hnext : ∀ first middle shorter between, Declares reading before first middle between →
      Charts source stage middle between (next ⟨first, middle, shorter⟩)) :
    Charts source stage tape before (reading >>= next) where
  passes value rest after hread := by
    obtain ⟨first, middle, shorter, between, hfirst, hlast⟩ := declares_bind.mp hread
    obtain ⟨tokens, hpass⟩ := h.passes _ _ _ hfirst
    obtain ⟨more, hmore⟩ := (hnext _ _ shorter _ hfirst).passes _ _ _ hlast
    exact ⟨tokens ++ more, hpass.append hmore⟩
  stands hlaid here hcomes := by
    obtain hfirst | ⟨first, middle, shorter, between, hfirst, hlast⟩ := hcomes.of_bind h.passes
    · exact h.stands hlaid here hfirst
    · obtain ⟨tokens, hpass⟩ := h.passes _ _ _ hfirst
      exact (hnext _ _ shorter _ hfirst).stands (hlaid.of_passes hpass) here hlast
  refused refusal after herror := by
    obtain herror | ⟨first, between, hfirst, herror⟩ := bind_eq_error_iff.mp herror
    · exact h.refused refusal after herror
    · have hdeclares : Declares reading before first.value first.rest between :=
        ⟨first.shorter, hfirst⟩
      obtain ⟨tokens, hpass⟩ := h.passes _ _ _ hdeclares
      exact ((hnext _ _ first.shorter _ hdeclares).refused refusal after herror).behind hpass

/-- What is only declared in between is of no account. -/
theorem Charts.of_action {γ : Type} {action : Declaring γ} {value : γ}
    {next : γ → Declaring (Step α bound)} (haction : action before = .ok value between)
    (h : Charts source stage tape between (next value)) :
    Charts source stage tape before (action >>= next) where
  passes last rest after hread := by
    obtain ⟨shorter, hread⟩ := hread
    rw [bind_of_ok haction] at hread
    exact h.passes last rest after ⟨shorter, hread⟩
  stands hlaid here hcomes := by
    unfold ComesBy at hcomes
    rw [bind_of_ok haction] at hcomes
    exact h.stands hlaid here hcomes
  refused refusal after herror := by
    rw [bind_of_ok haction] at herror
    exact h.refused refusal after herror

/-- A reading of its own. -/
theorem KeepsLevel.charts {reading : Declaring (Step α bound)}
    (h : KeepsLevel last tape before reading)
    (hshows : ∀ here, ComesBy tape before reading here → stage.Shows source here) :
    Charts source stage tape before reading where
  passes value rest after hread := by
    obtain ⟨-, tokens, hpass, -⟩ := h.of_declares hread
    exact ⟨_, hpass⟩
  stands _ here hcomes := ⟨[], stage, .here stage, hshows here hcomes⟩
  refused refusal after herror := by
    unfold KeepsLevel at h
    rw [herror] at h
    obtain ⟨tokens, stuck, hpass, -, hrefused⟩ := h
    exact refusedInside_of_refusedAt hpass hrefused

/-- A reading that belongs to a stage which is entered. -/
theorem Charts.enter {reading : Declaring (Step α bound)}
    (h : Charts source next tape before reading) (henters : Enters source stage opened next) :
    Charts source stage tape before reading where
  passes := h.passes
  stands hlaid here hcomes := by
    obtain ⟨blocks, hstands⟩ := h.stands hlaid here hcomes
    exact ⟨_, hstands.step henters⟩
  refused refusal after herror := (h.refused refusal after herror).enter henters

/-- Moving past one token comes by that token only. -/
theorem ComesBy.eq_of_advance (h : ComesBy tape before (ofReading tape.advance) here) :
    tape = here := by
  obtain ⟨tokens, later, hpass, hend⟩ := h
  cases tape with
  | ended place beforeLast =>
      cases hpass
      rfl
  | broken token place fault =>
      cases hpass
      rfl
  | more token place next =>
      obtain ⟨hlater, hne⟩ := hend
      cases hpass with
      | stay => rfl
      | step _ _ hpass =>
          exact absurd (List.append_eq_nil_iff.mp (hpass.append hlater).eq_nil).2 hne

/-- The token that closes a block is met where the block ends. -/
theorem charts_closing (h : Stands source stage blocks tape) :
    Charts source stage tape before (ofReading tape.advance) where
  passes value rest after hread :=
    ⟨[value], reads_advance.mp (declares_ofReading.mp hread).1⟩
  stands _ here hcomes := ⟨blocks, hcomes.eq_of_advance ▸ h⟩
  refused refusal after herror := by
    cases hread : tape.advance with
    | ok step =>
        rw [hread] at herror
        cases herror
    | error cause =>
        rw [hread] at herror
        cases herror
        exact refusedInside_of_refusedAt (.stay tape) (refusedAt_of_advance hread)

/-- At the end of the source a block is found unclosed. -/
theorem charts_unclosed (hcurrent : tape.current = .eof) :
    Charts source ⟨.statements inMethod, tape, after⟩ tape before
      (ofReading (tape.refuse .unclosedBlock) : Declaring (Step α bound)) where
  passes value rest after hread := absurd (declares_ofReading.mp hread).1 not_reads_refuse
  stands hlaid here hcomes := by
    obtain ⟨place, beforeLast, rfl⟩ := hlaid.eq_ended hcurrent
    obtain ⟨tokens, later, hpass, -⟩ := hcomes
    cases hpass
    exact ⟨[], (Reaches.here _).stands⟩
  refused refusal between herror := by
    cases herror
    exact ⟨[], tape, .stay tape, rfl, fun _ => .inr ⟨[], inMethod, after, .here _, hcurrent⟩⟩

/-! ## Blocks -/

section

variable (hinner : ∀ {inMethod : Bool} {shorter : Tape} {h : shorter.length < outer.length}
    {before : Declared}, Charts source ⟨.statement inMethod, shorter, before⟩ shorter before
      (within source outer inMethod shorter h))
include hinner

theorem charts_statements {h : tape.length < outer.length} :
    Charts source ⟨.statements inMethod, tape, before⟩ tape before
      (statements (within source outer) inMethod tape h) := by
  induction tape using shorter_induction generalizing before with
  | step tape ih =>
      rw [statements]
      split
      · exact charts_pure rfl
      · next heof => exact charts_unclosed heof
      · next hdedent heof =>
          refine (hinner.enter (.inner hdedent heof)).bind fun first behind hshorter between
            hfirst => ?_
          refine ((ih behind hshorter).enter (.others hdedent heof hfirst)).bind
            fun _ _ _ _ _ => ?_
          exact charts_pure rfl

theorem charts_suite {h : tape.length ≤ outer.length} :
    Charts source ⟨.suite inMethod, tape, before⟩ tape before
      (suite (within source outer) inMethod tape h) := by
  rw [suite_eq]
  refine (keepsLevel_suiteHead.charts fun _ => .opening).bind fun _ opened _ between hhead => ?_
  refine ((charts_statements hinner).enter (.block hhead)).bind fun nodes closed _ _ hnodes => ?_
  refine (charts_closing (Reaches.step (.block hhead) (reaches_of_statements hnodes)).stands).bind
    fun _ _ _ _ _ => ?_
  exact charts_pure rfl

/-! ## Conditionals -/

theorem charts_conditional {h : tape.length ≤ outer.length}
    (hcurrent : tape.current = .keyword .ifWord) :
    Charts source ⟨.statement inMethod, tape, before⟩ tape before
      (conditional source (within source outer) inMethod tape h) := by
  rw [conditional_eq]
  refine (keepsLevel_conditionHead.charts fun _ => .condition hcurrent).bind
    fun condition began _ ready hhead => ?_
  refine ((charts_suite hinner).enter (.consequent hcurrent hhead)).bind
    fun consequent behind _ between hconsequent => ?_
  split
  · next helse =>
      refine ((keepsLevel_elseHead helse).charts fun _ =>
        .otherwise hcurrent hhead hconsequent helse).bind fun _ otherwise _ last hword => ?_
      refine ((charts_suite hinner).enter
        (.alternative hcurrent hhead hconsequent helse hword)).bind fun _ _ _ _ _ => ?_
      exact charts_pure rfl
  · exact charts_pure rfl

/-! ## Classes -/

theorem charts_method {h : tape.length ≤ outer.length} :
    Charts source ⟨.method, tape, before⟩ tape before (method (within source outer) tape h) := by
  rw [method_eq]
  refine (keepsLevel_methodSignature.charts fun _ => .signature).bind
    fun head began _ between hhead => ?_
  refine ((charts_suite hinner).enter (.signature hhead)).bind fun _ _ _ _ _ => ?_
  exact charts_pure rfl

theorem charts_methods {h : tape.length < outer.length} {cls : ClassId} :
    Charts source ⟨.methods cls, tape, before⟩ tape before
      (methods (within source outer) cls tape h) := by
  induction tape using shorter_induction generalizing before with
  | step tape ih =>
      rw [methods]
      split
      · exact charts_pure rfl
      · next hdedent =>
          refine ((charts_method hinner).enter (.method hdedent)).bind
            fun first behind hshorter between hfirst => ?_
          refine Charts.of_action rfl ?_
          refine ((ih behind hshorter).enter (.methods hdedent hfirst rfl)).bind
            fun _ _ _ _ _ => ?_
          exact charts_pure rfl

theorem charts_classDefinition {h : tape.length ≤ outer.length}
    (hcurrent : tape.current = .keyword .classWord) :
    Charts source ⟨.statement inMethod, tape, before⟩ tape before
      (classDefinition source (within source outer) tape h) := by
  rw [classDefinition_eq]
  refine (keepsLevel_classHead.charts fun _ => .header hcurrent).bind
    fun head opened _ ready hhead => ?_
  refine Charts.of_action rfl ?_
  refine ((charts_methods hinner).enter (.body hcurrent hhead rfl)).bind
    fun _ closed _ between hmethods => ?_
  refine (charts_closing (Reaches.step (.body hcurrent hhead rfl)
    (reaches_of_methods hmethods)).stands).bind fun _ _ _ _ _ => ?_
  exact Charts.of_action rfl (charts_pure rfl)

end

/-! ## Statements and programs -/

theorem charts_statement :
    Charts source ⟨.statement inMethod, tape, before⟩ tape before
      (statement source inMethod tape) := by
  induction tape using shorter_induction generalizing inMethod before with
  | step tape ih =>
      have hinner {inMethod : Bool} {shorter : Tape} {h : shorter.length < tape.length}
          {before : Declared} : Charts source ⟨.statement inMethod, shorter, before⟩ shorter before
            (within source tape inMethod shorter h) :=
        ih shorter h
      rw [statement]
      unfold layer
      split
      · next hcurrent => exact charts_classDefinition hinner hcurrent
      · next hcurrent => exact charts_conditional hinner hcurrent
      · next hclass hif => exact keepsLevel_line.charts fun _ => .line hclass hif

/-- Whatever the reader of a program gets to, it stands there with some blocks open. -/
theorem stands_of_program (hlaid : tape.Laid) (hpass : Passes tape tokens here)
    (hreached : ∀ refusal after, program source tape before = .error refusal after →
      ∃ more stuck, Passes here more stuck ∧ refusal.reached = stuck.place.index) :
    ∃ blocks, Stands source ⟨.program, tape, before⟩ blocks here := by
  induction tape using shorter_induction generalizing before tokens with
  | step tape ih =>
      by_cases hcurrent : tape.current = .eof
      · obtain ⟨place, beforeLast, rfl⟩ := hlaid.eq_ended hcurrent
        cases hpass
        exact ⟨[], (Reaches.here _).stands⟩
      -- the first statement is met as a whole, or up to what is refused in it
      have hstatement (hcomes : ComesBy tape before (statement source false tape) here) :
          ∃ blocks, Stands source ⟨.program, tape, before⟩ blocks here := by
        obtain ⟨blocks, hstands⟩ := charts_statement.stands hlaid here hcomes
        exact ⟨_, hstands.step (.first hcurrent)⟩
      cases hread : statement source false tape before with
      | error refusal after =>
          obtain ⟨more, hmore⟩ :=
            hreached refusal after (program_eq_error_iff.mpr ⟨hcurrent, .inl hread⟩)
          refine hstatement ⟨tokens, more, hpass, ?_⟩
          rwa [hread]
      | ok first between =>
          have hdeclares : Declares (statement source false tape) before first.value first.rest
              between := ⟨first.shorter, hread⟩
          obtain ⟨passed, hfirst⟩ := charts_statement.passes _ _ _ hdeclares
          obtain hahead | ⟨later, hlater⟩ := hpass.compare hfirst
          · obtain ⟨more, hmore⟩ := hahead
            refine hstatement ⟨tokens, more, hpass, ?_⟩
            rwa [hread]
          · obtain ⟨blocks, hstands⟩ := ih first.rest first.shorter (hlaid.of_passes hfirst) hlater
              fun refusal after herror => hreached refusal after
                (program_eq_error_iff.mpr ⟨hcurrent, .inr ⟨_, _, between, hdeclares, herror⟩⟩)
            exact ⟨_, hstands.step (.rest hcurrent hdeclares)⟩

theorem refused_of_program (herror : program source tape before = .error refusal after) :
    RefusedInside source ⟨.program, tape, before⟩ tape refusal := by
  induction tape using shorter_induction generalizing before with
  | step tape ih =>
      obtain ⟨hcurrent, hfirst | ⟨node, behind, between, hfirst, hrest⟩⟩ :=
        program_eq_error_iff.mp herror
      · exact (charts_statement.refused refusal after hfirst).enter (.first hcurrent)
      · obtain ⟨tokens, hpass⟩ := charts_statement.passes _ _ _ hfirst
        have hrefused := (ih behind hfirst.shorter hrest).enter (.rest hcurrent hfirst)
        exact hrefused.behind hpass

end Offside.Statement
