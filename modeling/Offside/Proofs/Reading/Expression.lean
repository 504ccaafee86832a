import Offside.Proofs.Reading.Tape
import Offside.Proofs.Grammar.Phrase

/-!
# What the readers of expressions read

One statement for every reader: what it reads off a tape, in terms of the tokens it
passes and of the readers it calls.  These statements are all that the two directions
of the grammar need; no later proof unfolds a reader.

A level reads its first operand and then its tail.  The readers are written the other
way round, since the operand of a sum may have been read before it is known to be
one: they read an operand with its signs, and then one tail after another.
`reads_sum` and `reads_compared` group these tails by levels.
-/

namespace Offside.Expression

open Tape

/-! ## Names -/

theorem reads_namesAfter {separator : Char} {tape rest : Tape} {names : List String} :
    Reads (namesAfter separator tape) names rest ↔
      Passes tape (names.flatMap fun name => [.symbol separator, .identifier name]) rest ∧
        rest.current ≠ .symbol separator := by
  induction tape using shorter_induction generalizing names with
  | step tape ih =>
      rw [namesAfter]
      split
      · rename_i hcurrent
        simp only [reads_bind, reads_pure, reads_advance_of_current hcurrent, reads_expectName]
        constructor
        · rintro ⟨_, afterMark, _, ⟨hmark, -⟩, name, afterName, _, hname, others, _, _, hreads,
            rfl, rfl⟩
          obtain ⟨hothers, hstop⟩ := (ih _ (by omega)).mp hreads
          exact ⟨hmark.append (hname.append hothers), hstop⟩
        · rintro ⟨hpass, hstop⟩
          cases names with
          | nil => exact absurd (passes_nil.mp hpass ▸ hcurrent) hstop
          | cons name others =>
              obtain ⟨afterMark, hmark, hpass⟩ := hpass.split [.symbol separator]
              obtain ⟨afterName, hname, hothers⟩ := hpass.split [.identifier name]
              have hshorter := (reads_advance.mpr hmark).shorter
              have hshorter' := (reads_expectName.mpr hname).shorter
              have hreads := (ih afterName (by omega)).mpr ⟨hothers, hstop⟩
              exact ⟨_, _, hshorter, ⟨hmark, rfl⟩, _, _, hshorter', hname, _, _, hreads.shorter,
                hreads, rfl, rfl⟩
      · rename_i hcurrent
        rw [reads_pure]
        constructor
        · rintro ⟨rfl, rfl⟩
          exact ⟨passes_nil.mpr rfl, hcurrent⟩
        · rintro ⟨hpass, hstop⟩
          cases names with
          | nil => exact ⟨rfl, passes_nil.mp hpass⟩
          | cons name others => exact absurd (Passes.current_eq hpass) hcurrent

theorem reads_dottedName {tape rest : Tape} {name : String} {fields : List String} :
    Reads (dottedName tape) (name, fields) rest ↔
      Passes tape (dottedTokens name fields) rest ∧ rest.current ≠ .symbol '.' := by
  rw [dottedName]
  simp only [reads_bind, reads_pure, reads_expectName, reads_namesAfter]
  constructor
  · rintro ⟨_, middle, _, hname, _, _, _, ⟨hfields, hstop⟩, heq, rfl⟩
    cases heq
    exact ⟨hname.append hfields, hstop⟩
  · rintro ⟨hpass, hstop⟩
    obtain ⟨middle, hname, hfields⟩ := hpass.split [.identifier name]
    have hname' := reads_expectName.mpr hname
    have hfields' := reads_namesAfter.mpr ⟨hfields, hstop⟩
    exact ⟨name, middle, hname'.shorter, hname, fields, rest, hfields'.shorter, ⟨hfields, hstop⟩,
      rfl, rfl⟩

/-! ## Arguments and calls -/

section

variable {outer : Tape} {inner : Inner outer} {tape rest : Tape}

theorem reads_moreArguments {h : tape.length ≤ outer.length} {nodes : List Node} :
    Reads (moreArguments inner tape h) nodes rest ↔
      (tape.current ≠ .symbol ',' ∧ nodes = [] ∧ tape = rest) ∨
      ∃ argument others afterComma afterArgument hcomma hargument,
        Passes tape [.symbol ','] afterComma ∧
        Reads (inner afterComma hcomma) argument afterArgument ∧
        Reads (moreArguments inner afterArgument hargument) others rest ∧
        nodes = argument :: others := by
  rw [moreArguments]
  split
  · rename_i hcurrent
    simp only [reads_bind, reads_pure, reads_advance_of_current hcurrent]
    constructor
    · rintro ⟨_, afterComma, _, ⟨hpass, -⟩, argument, afterArgument, _, hinner, others, _, _,
        hothers, rfl, rfl⟩
      exact .inr ⟨argument, others, afterComma, afterArgument, _, _, hpass, hinner, hothers, rfl⟩
    · rintro (⟨hne, -, -⟩ | ⟨argument, others, afterComma, afterArgument, _, _, hpass, hinner,
        hothers, rfl⟩)
      · exact absurd hcurrent hne
      · exact ⟨_, _, (reads_advance.mpr hpass).shorter, ⟨hpass, rfl⟩, _, _, hinner.shorter, hinner,
          _, _, hothers.shorter, hothers, rfl, rfl⟩
  · rename_i hcurrent
    rw [reads_pure]
    constructor
    · rintro ⟨rfl, rfl⟩
      exact .inl ⟨hcurrent, rfl, rfl⟩
    · rintro (⟨-, rfl, rfl⟩ | ⟨argument, others, afterComma, afterArgument, _, _, hpass, -⟩)
      · exact ⟨rfl, rfl⟩
      · exact absurd hpass.current_eq hcurrent

theorem reads_someArguments {h : tape.length < outer.length} {nodes : List Node} :
    Reads (someArguments inner tape h) nodes rest ↔
      ∃ first others afterFirst hfirst, Reads (inner tape h) first afterFirst ∧
        Reads (moreArguments inner afterFirst hfirst) others rest ∧ nodes = first :: others := by
  rw [someArguments]
  simp only [reads_bind, reads_pure]
  constructor
  · rintro ⟨first, afterFirst, _, hfirst, others, _, _, hothers, rfl, rfl⟩
    exact ⟨first, others, afterFirst, _, hfirst, hothers, rfl⟩
  · rintro ⟨first, others, afterFirst, _, hfirst, hothers, rfl⟩
    exact ⟨_, _, hfirst.shorter, hfirst, _, _, hothers.shorter, hothers, rfl, rfl⟩

theorem reads_arguments {h : tape.length ≤ outer.length} {nodes : List Node} :
    Reads (arguments inner tape h) nodes rest ↔
      ∃ opened, Passes tape [.symbol '('] opened ∧
        ((nodes = [] ∧ Passes opened [.symbol ')'] rest) ∨
          (opened.current ≠ .symbol ')' ∧ ∃ closed hopened,
            Reads (someArguments inner opened hopened) nodes closed ∧
            Passes closed [.symbol ')'] rest)) := by
  rw [arguments]
  simp only [reads_bind, reads_expectSymbol]
  constructor
  · rintro ⟨_, opened, hopened, ⟨hopen, rfl⟩, hread⟩
    refine ⟨opened, hopen, ?_⟩
    split at hread
    · simp only [reads_bind, reads_pure, reads_expectSymbol] at hread
      obtain ⟨_, _, _, ⟨hclose, rfl⟩, rfl, rfl⟩ := hread
      exact .inl ⟨rfl, hclose⟩
    · rename_i hcurrent
      simp only [reads_bind, reads_pure, reads_expectSymbol] at hread
      obtain ⟨values, closed, _, hvalues, _, _, _, ⟨hclose, rfl⟩, rfl, rfl⟩ := hread
      exact .inr ⟨hcurrent, closed, _, hvalues, hclose⟩
  · rintro ⟨opened, hopen, hread⟩
    refine ⟨_, opened, (reads_advance.mpr hopen).shorter, ⟨hopen, rfl⟩, ?_⟩
    rcases hread with ⟨rfl, hclose⟩ | ⟨hcurrent, closed, _, hvalues, hclose⟩
    · rw [if_pos hclose.current_eq]
      simp only [reads_bind, reads_pure, reads_expectSymbol]
      exact ⟨_, rest, (reads_advance.mpr hclose).shorter, ⟨hclose, rfl⟩, trivial, rfl⟩
    · rw [if_neg hcurrent]
      simp only [reads_bind, reads_pure, reads_expectSymbol]
      exact ⟨_, _, hvalues.shorter, hvalues, _, rest, (reads_advance.mpr hclose).shorter,
        ⟨hclose, rfl⟩, rfl, rfl⟩

theorem reads_moreCalls {h : tape.length ≤ outer.length} {receiver whole : Node} :
    Reads (moreCalls inner receiver tape h) whole rest ↔
      (tape.current ≠ .symbol '.' ∧ whole = receiver ∧ tape = rest) ∨
      ∃ method values named called hnamed hcalled,
        Passes tape [.symbol '.', .identifier method] named ∧
        Reads (arguments inner named hnamed) values called ∧
        Reads (moreCalls inner (.call receiver method values) called hcalled) whole rest := by
  rw [moreCalls]
  split
  · rename_i hcurrent
    simp only [reads_bind, reads_pure, reads_advance_of_current hcurrent, reads_expectName]
    constructor
    · rintro ⟨_, afterPoint, _, ⟨hpoint, -⟩, method, named, _, hname, values, called, _, hvalues,
        calls, _, _, hcalls, rfl, rfl⟩
      exact .inr ⟨method, values, named, called, _, _, hpoint.append hname, hvalues, hcalls⟩
    · rintro (⟨hne, -, -⟩ | ⟨method, values, named, called, _, _, hpass, hvalues, hcalls⟩)
      · exact absurd hcurrent hne
      · obtain ⟨afterPoint, hpoint, hname⟩ := hpass.split [.symbol '.']
        exact ⟨_, _, (reads_advance.mpr hpoint).shorter, ⟨hpoint, rfl⟩, _, _,
          (reads_expectName.mpr hname).shorter, hname, _, _, hvalues.shorter, hvalues, _, _,
          hcalls.shorter, hcalls, rfl, rfl⟩
  · rename_i hcurrent
    rw [reads_pure]
    constructor
    · rintro ⟨rfl, rfl⟩
      exact .inl ⟨hcurrent, rfl, rfl⟩
    · rintro (⟨-, rfl, rfl⟩ | ⟨method, values, named, called, _, _, hpass, -⟩)
      · exact ⟨rfl, rfl⟩
      · exact absurd hpass.current_eq hcurrent

/-! ## Operands -/

variable {setting : Setting}

theorem application_eq_ok_iff {name : String} {fields : List String} {values : List Node}
    {behind : Tape} {call : Node} :
    application setting name fields values behind = .ok call ↔
      applied? setting.classes name fields values = some call := by
  unfold application applied?
  cases fields.getLast? with
  | some method => simp
  | none =>
      by_cases hname : name = strName
      · simp only [if_pos hname]
        split <;> simp [refuse]
      · simp only [if_neg hname]
        cases setting.classes.get? name <;> simp [refuse]

theorem reads_reference {h : tape.length ≤ outer.length} {name : String} {fields : List String}
    {whole : Node} :
    Reads (reference inner setting name fields tape h) whole rest ↔
      (tape.current ≠ .symbol '(' ∧ whole = .variable name fields ∧ tape = rest) ∨
      ∃ values called call hcalled, Reads (arguments inner tape h) values called ∧
        applied? setting.classes name fields values = some call ∧
        Reads (moreCalls inner call called hcalled) whole rest := by
  rw [reference]
  split
  · rename_i hcurrent
    simp only [reads_bind]
    constructor
    · rintro ⟨values, called, _, hvalues, hread⟩
      -- what a call means is decided behind its arguments, and may be refused there
      cases hcall : application setting name fields values called with
      | error refusal =>
          simp only [hcall] at hread
          exact absurd hread not_reads_error
      | ok call =>
          simp only [hcall] at hread
          obtain ⟨_, _, _, hcalls, hread⟩ := reads_bind.mp hread
          obtain ⟨rfl, rfl⟩ := reads_pure.mp hread
          exact .inr ⟨values, called, call, _, hvalues, application_eq_ok_iff.mp hcall, hcalls⟩
    · rintro (⟨hne, -, -⟩ | ⟨values, called, call, _, hvalues, hcall, hcalls⟩)
      · exact absurd hcurrent hne
      · refine ⟨values, called, hvalues.shorter, hvalues, ?_⟩
        simp only [application_eq_ok_iff.mpr hcall]
        exact hcalls.bind fun _ => reads_pure.mpr ⟨rfl, rfl⟩
  · rename_i hcurrent
    rw [reads_pure]
    constructor
    · rintro ⟨rfl, rfl⟩
      exact .inl ⟨hcurrent, rfl, rfl⟩
    · rintro (⟨-, rfl, rfl⟩ | ⟨values, called, call, _, hvalues, -, -⟩)
      · exact ⟨rfl, rfl⟩
      · obtain ⟨opened, hopen, -⟩ := reads_arguments.mp hvalues
        exact absurd hopen.current_eq hcurrent

theorem reads_primary_literal {h : tape.length ≤ outer.length} {value node : Node}
    (hvalue : literal? (.literal setting.source tape.place.index) tape.current = some value) :
    Reads (primary inner setting tape h) node rest ↔
      Passes tape [tape.current] rest ∧ node = value := by
  -- all five kinds of literals are read alike
  have hprimary : primary inner setting tape h =
      tape.advance >>= fun step => pure (step.map fun _ => value) := by
    unfold literal? at hvalue
    unfold primary
    split at hvalue <;> cases hvalue <;> rename_i hcurrent <;> simp only [hcurrent]
  rw [hprimary]
  simp only [reads_map, reads_advance]
  constructor
  · rintro ⟨token, hpass, rfl⟩
    exact ⟨hpass.current_eq ▸ hpass, rfl⟩
  · rintro ⟨hpass, rfl⟩
    exact ⟨_, hpass, rfl⟩

theorem reads_primary_parenthesis {h : tape.length ≤ outer.length} {node : Node}
    (hcurrent : tape.current = .symbol '(') :
    Reads (primary inner setting tape h) node rest ↔
      ∃ opened closed hopened, Passes tape [.symbol '('] opened ∧
        Reads (inner opened hopened) node closed ∧ Passes closed [.symbol ')'] rest := by
  unfold primary
  simp only [hcurrent, reads_bind, reads_pure, reads_advance_of_current hcurrent,
    reads_expectSymbol]
  constructor
  · rintro ⟨_, opened, _, ⟨hopen, -⟩, value, closed, _, hvalue, _, _, _, ⟨hclose, rfl⟩, rfl, rfl⟩
    exact ⟨opened, closed, _, hopen, hvalue, hclose⟩
  · rintro ⟨opened, closed, _, hopen, hvalue, hclose⟩
    exact ⟨_, opened, (reads_advance.mpr hopen).shorter, ⟨hopen, rfl⟩, node, closed,
      hvalue.shorter, hvalue, _, rest, (reads_advance.mpr hclose).shorter, ⟨hclose, rfl⟩, rfl, rfl⟩

theorem reads_primary_name {h : tape.length ≤ outer.length} {node : Node} {first : String}
    (hcurrent : tape.current = .identifier first) :
    Reads (primary inner setting tape h) node rest ↔
      ∃ name fields named hnamed, Passes tape (dottedTokens name fields) named ∧
        named.current ≠ .symbol '.' ∧
        Reads (reference inner setting name fields named hnamed) node rest := by
  unfold primary
  simp only [hcurrent, reads_bind, reads_pure]
  constructor
  · rintro ⟨⟨name, fields⟩, named, _, hname, value, _, _, hvalue, rfl, rfl⟩
    obtain ⟨hpass, hstop⟩ := reads_dottedName.mp hname
    exact ⟨name, fields, named, _, hpass, hstop, hvalue⟩
  · rintro ⟨name, fields, named, _, hpass, hstop, hvalue⟩
    have hname := reads_dottedName.mpr ⟨hpass, hstop⟩
    exact ⟨_, named, hname.shorter, hname, node, rest, hvalue.shorter, hvalue, rfl, rfl⟩

/-- What begins no operand is refused. -/
theorem not_reads_primary {h : tape.length ≤ outer.length} {node : Node}
    (hliteral : literal? (.literal setting.source tape.place.index) tape.current = none)
    (hparenthesis : tape.current ≠ .symbol '(')
    (hname : ∀ name, tape.current ≠ .identifier name) :
    ¬ Reads (primary inner setting tape h) node rest := by
  unfold primary
  unfold literal? at hliteral
  split <;> simp_all

theorem reads_signed {h : tape.length ≤ outer.length} {node : Node} :
    Reads (signed inner setting tape h) node rest ↔
      (tape.current ≠ .symbol '-' ∧ Reads (primary inner setting tape h) node rest) ∨
      ∃ behind operand hbehind, Passes tape [.symbol '-'] behind ∧
        Reads (signed inner setting behind hbehind) operand rest ∧
        node = .arithmetic .subtract
          (.number (.literal setting.source tape.place.index) 0) operand := by
  rw [signed]
  split
  · rename_i hcurrent
    simp only [reads_bind, reads_pure, reads_advance_of_current hcurrent]
    constructor
    · rintro ⟨_, behind, _, ⟨hsign, -⟩, operand, _, _, hoperand, rfl, rfl⟩
      exact .inr ⟨behind, operand, _, hsign, hoperand, rfl⟩
    · rintro (⟨hne, -⟩ | ⟨behind, operand, _, hsign, hoperand, rfl⟩)
      · exact absurd hcurrent hne
      · exact ⟨_, behind, (reads_advance.mpr hsign).shorter, ⟨hsign, rfl⟩, operand, rest,
          hoperand.shorter, hoperand, rfl, rfl⟩
  · rename_i hcurrent
    constructor
    · exact fun hread => .inl ⟨hcurrent, hread⟩
    · rintro (⟨-, hread⟩ | ⟨behind, operand, _, hsign, -⟩)
      · exact hread
      · exact absurd hsign.current_eq hcurrent

/-! ## Operators -/

theorem reads_joined {joins : Token → Option (Node → Node → Node)}
    {operand : (tape : Tape) → tape.length ≤ outer.length → Reading Node tape.length}
    {h : tape.length ≤ outer.length} {left whole : Node} :
    Reads (joined joins operand left tape h) whole rest ↔
      (joins tape.current = none ∧ whole = left ∧ tape = rest) ∨
      ∃ operator join behind right joinedOn hbehind hjoined,
        joins operator = some join ∧ Passes tape [operator] behind ∧
        Reads (operand behind hbehind) right joinedOn ∧
        Reads (joined joins operand (join left right) joinedOn hjoined) whole rest := by
  rw [joined]
  split
  · rename_i hnone
    rw [reads_pure]
    constructor
    · rintro ⟨rfl, rfl⟩
      exact .inl ⟨hnone, rfl, rfl⟩
    · rintro (⟨-, rfl, rfl⟩ | ⟨operator, join, behind, right, joinedOn, _, _, hjoin, hpass, -⟩)
      · exact ⟨rfl, rfl⟩
      · rw [hpass.current_eq, hjoin] at hnone
        cases hnone
  · rename_i join hjoin
    simp only [reads_bind, reads_pure, reads_advance]
    constructor
    · rintro ⟨operator, behind, _, hoperator, right, joinedOn, _, hright, _, _, _, hwhole, rfl,
        rfl⟩
      -- the operator that is passed is the one that was looked at
      rw [hoperator.current_eq] at hjoin
      exact .inr ⟨operator, join, behind, right, joinedOn, _, _, hjoin, hoperator, hright, hwhole⟩
    · rintro (⟨hnone, -, -⟩ | ⟨operator, join', behind, right, joinedOn, _, _, hjoin', hpass,
        hright, hwhole⟩)
      · rw [hjoin] at hnone
        cases hnone
      · rw [hpass.current_eq, hjoin'] at hjoin
        cases hjoin
        exact ⟨operator, behind, (reads_advance.mpr hpass).shorter, hpass, right, joinedOn,
          hright.shorter, hright, whole, rest, hwhole.shorter, hwhole, rfl, rfl⟩

end

/-- Operands joined from the left. -/
def chained {outer : Tape} (joins : Token → Option (Node → Node → Node))
    (operand : (tape : Tape) → tape.length ≤ outer.length → Reading Node tape.length)
    (tape : Tape) (h : tape.length ≤ outer.length) : Reading Node tape.length := do
  let first ← operand tape h
  let whole ← joined joins operand first.value first.rest (first.length_rest_le h)
  return whole.widen first.length_rest_lt

theorem reads_chained {outer tape rest : Tape} {joins : Token → Option (Node → Node → Node)}
    {operand : (tape : Tape) → tape.length ≤ outer.length → Reading Node tape.length}
    {h : tape.length ≤ outer.length} {whole : Node} :
    Reads (chained joins operand tape h) whole rest ↔
      ∃ first behind hbehind, Reads (operand tape h) first behind ∧
        Reads (joined joins operand first behind hbehind) whole rest := by
  unfold chained
  simp only [reads_bind, reads_pure]
  constructor
  · rintro ⟨first, behind, _, hfirst, _, _, _, hwhole, rfl, rfl⟩
    exact ⟨first, behind, _, hfirst, hwhole⟩
  · rintro ⟨first, behind, _, hfirst, hwhole⟩
    exact ⟨first, behind, hfirst.shorter, hfirst, whole, rest, hwhole.shorter, hwhole, rfl, rfl⟩

/-- A comparison, or the sum that stands alone. -/
def compared {outer : Tape} (inner : Inner outer) (setting : Setting) (tape : Tape)
    (h : tape.length ≤ outer.length) : Reading Node tape.length := do
  let first ← signed inner setting tape h
  let whole ← comparisonTail inner setting first.value first.rest (first.length_rest_le h)
  return whole.widen first.length_rest_lt

/-- The reader of a level. -/
def Level.read {outer : Tape} (inner : Inner outer) (setting : Setting) :
    Level → (tape : Tape) → tape.length ≤ outer.length → Reading Node tape.length
  | test => disjunction inner setting
  | conjunct => conjunction inner setting
  | negated => Expression.negated inner setting
  | comparison => compared inner setting
  | sum => Expression.sum inner setting
  | product => Expression.product inner setting
  | signed => Expression.signed inner setting
  | primary => Expression.primary inner setting

section

variable {outer : Tape} {inner : Inner outer} {setting : Setting} {tape rest : Tape}

theorem reads_product {h : tape.length ≤ outer.length} {whole : Node} :
    Reads (product inner setting tape h) whole rest ↔
      ∃ first behind hbehind, Reads (signed inner setting tape h) first behind ∧
        Reads (productTail inner setting first behind hbehind) whole rest :=
  reads_chained

theorem reads_sumTail {h : tape.length ≤ outer.length} {left whole : Node} :
    Reads (sumTail inner setting left tape h) whole rest ↔
      ∃ first behind hbehind, Reads (productTail inner setting left tape h) first behind ∧
        Reads (joined sumOperator (product inner setting) first behind hbehind) whole rest := by
  unfold sumTail
  simp only [reads_bind, reads_pure]
  constructor
  · rintro ⟨first, behind, _, hfirst, _, _, _, hwhole, rfl, rfl⟩
    exact ⟨first, behind, by omega, hfirst, hwhole⟩
  · rintro ⟨first, behind, _, hfirst, hwhole⟩
    exact ⟨first, behind, hfirst.shorter, hfirst, whole, rest, hwhole.shorter, hwhole, rfl, rfl⟩

/-- A sum is an operand with its signs and a tail. -/
theorem reads_sum_iff_tail {h : tape.length ≤ outer.length} {whole : Node} :
    Reads (sum inner setting tape h) whole rest ↔
      ∃ first behind hbehind, Reads (signed inner setting tape h) first behind ∧
        Reads (sumTail inner setting first behind hbehind) whole rest := by
  unfold sum
  simp only [reads_bind, reads_pure]
  constructor
  · rintro ⟨first, behind, _, hfirst, _, _, _, hwhole, rfl, rfl⟩
    exact ⟨first, behind, _, hfirst, hwhole⟩
  · rintro ⟨first, behind, _, hfirst, hwhole⟩
    have := hfirst.shorter
    have := hwhole.shorter
    exact ⟨first, behind, hfirst.shorter, hfirst, whole, rest, by omega, hwhole, rfl, rfl⟩

theorem reads_sum {h : tape.length ≤ outer.length} {whole : Node} :
    Reads (sum inner setting tape h) whole rest ↔
      ∃ first behind hbehind, Reads (product inner setting tape h) first behind ∧
        Reads (joined sumOperator (product inner setting) first behind hbehind) whole rest := by
  simp only [reads_sum_iff_tail, reads_sumTail, reads_product]
  constructor
  · rintro ⟨first, behind, hbehind, hfirst, factor, middle, hmiddle, hfactor, hwhole⟩
    exact ⟨factor, middle, hmiddle, ⟨first, behind, hbehind, hfirst, hfactor⟩, hwhole⟩
  · rintro ⟨factor, middle, hmiddle, ⟨first, behind, hbehind, hfirst, hfactor⟩, hwhole⟩
    exact ⟨first, behind, hbehind, hfirst, factor, middle, hmiddle, hfactor, hwhole⟩

/-- The levels that join operands read an operand of the next level and join others to
it. -/
theorem Level.reads_chain (level : Level) (operator : Token) {join : Node → Node → Node}
    (hlevel : level.joins operator = some join) {h : tape.length ≤ outer.length} {whole : Node} :
    Reads (level.read inner setting tape h) whole rest ↔
      ∃ first behind hbehind, Reads (level.next.read inner setting tape h) first behind ∧
        Reads (joined level.joins (level.next.read inner setting) first behind hbehind)
          whole rest := by
  cases level with
  | test => exact reads_chained
  | conjunct => exact reads_chained
  | sum => exact reads_sum
  | product => exact reads_chained
  | negated => cases hlevel
  | comparison => cases hlevel
  | signed => cases hlevel
  | primary => cases hlevel

theorem reads_comparisonTail {h : tape.length ≤ outer.length} {left whole : Node} :
    Reads (comparisonTail inner setting left tape h) whole rest ↔
      (Reads (sumTail inner setting left tape h) whole rest ∧ relation rest.current = none) ∨
      ∃ first right operator found behind compared hcompared,
        Reads (sumTail inner setting left tape h) first behind ∧
        relation operator = some found ∧ Passes behind [operator] compared ∧
        Reads (sum inner setting compared hcompared) right rest ∧
        whole = .comparison found first right := by
  unfold comparisonTail
  rw [reads_bind]
  constructor
  · rintro ⟨first, behind, _, hfirst, hread⟩
    dsimp only at hread
    split at hread
    · rename_i hrelation
      obtain ⟨rfl, rfl⟩ := reads_pure.mp hread
      exact .inl ⟨hfirst, hrelation⟩
    · rename_i found hrelation
      simp only [reads_bind, reads_pure, reads_advance] at hread
      obtain ⟨operator, compared, _, hoperator, right, _, _, hright, rfl, rfl⟩ := hread
      exact .inr ⟨first, right, operator, found, behind, compared, _, hfirst,
        hoperator.current_eq ▸ hrelation, hoperator, hright, rfl⟩
  · rintro (⟨hfirst, hrelation⟩ | ⟨first, right, operator, found, behind, compared, _, hfirst,
      hrelation, hoperator, hright, rfl⟩)
    · refine ⟨whole, rest, hfirst.shorter, hfirst, ?_⟩
      simp only [hrelation, reads_pure, and_self]
    · refine ⟨first, behind, hfirst.shorter, hfirst, ?_⟩
      simp only [hoperator.current_eq, hrelation, reads_bind, reads_pure, reads_advance]
      exact ⟨operator, compared, (reads_advance.mpr hoperator).shorter, hoperator, right, rest,
        hright.shorter, hright, rfl, rfl⟩

theorem reads_compared {h : tape.length ≤ outer.length} {whole : Node} :
    Reads (compared inner setting tape h) whole rest ↔
      (Reads (sum inner setting tape h) whole rest ∧ relation rest.current = none) ∨
      ∃ left right operator found behind compared hcompared,
        Reads (sum inner setting tape h) left behind ∧ relation operator = some found ∧
        Passes behind [operator] compared ∧
        Reads (sum inner setting compared hcompared) right rest ∧
        whole = .comparison found left right := by
  -- as it is written: an operand with its signs, then the tail of a comparison
  have htail : Reads (compared inner setting tape h) whole rest ↔
      ∃ first behind hbehind, Reads (signed inner setting tape h) first behind ∧
        Reads (comparisonTail inner setting first behind hbehind) whole rest := by
    unfold compared
    simp only [reads_bind, reads_pure]
    constructor
    · rintro ⟨first, behind, _, hfirst, _, _, _, hwhole, rfl, rfl⟩
      exact ⟨first, behind, _, hfirst, hwhole⟩
    · rintro ⟨first, behind, _, hfirst, hwhole⟩
      have := hfirst.shorter
      have := hwhole.shorter
      exact ⟨first, behind, hfirst.shorter, hfirst, whole, rest, by omega, hwhole, rfl, rfl⟩
  simp only [htail, reads_comparisonTail, @reads_sum_iff_tail outer inner setting tape]
  constructor
  · rintro ⟨first, behind, hbehind, hfirst, ⟨hsum, hrelation⟩ | ⟨left, right, operator, found,
      middle, compared, hcompared, hleft, hrelation, hoperator, hright, rfl⟩⟩
    · exact .inl ⟨⟨first, behind, hbehind, hfirst, hsum⟩, hrelation⟩
    · exact .inr ⟨left, right, operator, found, middle, compared, hcompared,
        ⟨first, behind, hbehind, hfirst, hleft⟩, hrelation, hoperator, hright, rfl⟩
  · rintro (⟨⟨first, behind, hbehind, hfirst, hsum⟩, hrelation⟩ | ⟨left, right, operator, found,
      middle, compared, hcompared, ⟨first, behind, hbehind, hfirst, hleft⟩, hrelation, hoperator,
      hright, rfl⟩)
    · exact ⟨first, behind, hbehind, hfirst, .inl ⟨hsum, hrelation⟩⟩
    · exact ⟨first, behind, hbehind, hfirst, .inr ⟨left, right, operator, found, middle, compared,
        hcompared, hleft, hrelation, hoperator, hright, rfl⟩⟩

theorem reads_negated {h : tape.length ≤ outer.length} {node : Node} :
    Reads (negated inner setting tape h) node rest ↔
      (tape.current ≠ .keyword .notWord ∧ Reads (compared inner setting tape h) node rest) ∨
      ∃ behind operand hbehind, Passes tape [.keyword .notWord] behind ∧
        Reads (negated inner setting behind hbehind) operand rest ∧
        node = .negation operand := by
  rw [negated]
  split
  · rename_i hcurrent
    simp only [reads_bind, reads_pure, reads_advance_of_current hcurrent]
    constructor
    · rintro ⟨_, behind, _, ⟨hword, -⟩, operand, _, _, hoperand, rfl, rfl⟩
      exact .inr ⟨behind, operand, _, hword, hoperand, rfl⟩
    · rintro (⟨hne, -⟩ | ⟨behind, operand, _, hword, hoperand, rfl⟩)
      · exact absurd hcurrent hne
      · exact ⟨_, behind, (reads_advance.mpr hword).shorter, ⟨hword, rfl⟩, operand, rest,
          hoperand.shorter, hoperand, rfl, rfl⟩
  · rename_i hcurrent
    constructor
    · exact fun hread => .inl ⟨hcurrent, hread⟩
    · rintro (⟨-, hread⟩ | ⟨behind, operand, _, hword, -⟩)
      · exact hread
      · exact absurd hword.current_eq hcurrent

theorem reads_disjunctionTail {h : tape.length ≤ outer.length} {left whole : Node} :
    Reads (disjunctionTail inner setting left tape h) whole rest ↔
      ∃ compared middle conjunct behind hmiddle hbehind,
        Reads (comparisonTail inner setting left tape h) compared middle ∧
        Reads (joined conjunctionOperator (negated inner setting) compared middle hmiddle)
          conjunct behind ∧
        Reads (joined disjunctionOperator (conjunction inner setting) conjunct behind hbehind)
          whole rest := by
  unfold disjunctionTail
  simp only [reads_bind, reads_pure]
  constructor
  · rintro ⟨compared, middle, _, hcompared, conjunct, behind, _, hconjunct, _, _, _, hwhole, rfl,
      rfl⟩
    exact ⟨compared, middle, conjunct, behind, _, _, hcompared, hconjunct, hwhole⟩
  · rintro ⟨compared, middle, conjunct, behind, _, _, hcompared, hconjunct, hwhole⟩
    exact ⟨compared, middle, hcompared.shorter, hcompared, conjunct, behind, hconjunct.shorter,
      hconjunct, whole, rest, hwhole.shorter, hwhole, rfl, rfl⟩

end

/-! ## Whole expressions -/

/-- Reads a whole expression off a shorter tape. -/
abbrev inside (setting : Setting) (outer : Tape) : Inner outer :=
  fun shorter _ => expression setting shorter

variable {setting : Setting} {tape rest : Tape}

theorem reads_expression {node : Node} :
    Reads (expression setting tape) node rest ↔
      Reads (disjunction (inside setting tape) setting tape (Nat.le_refl _)) node rest := by
  rw [expression]

theorem reads_continued {name : String} {fields : List String} {node : Node} :
    Reads (continued setting name fields tape) node rest ↔
      ∃ first behind hbehind,
        Reads (reference (inside setting tape) setting name fields tape (Nat.le_refl _))
          first behind ∧
        Reads (disjunctionTail (inside setting tape) setting first behind hbehind) node rest := by
  unfold continued
  simp only [reads_bind, reads_pure]
  constructor
  · rintro ⟨first, behind, hfirst', hfirst, _, _, _, hwhole, rfl, rfl⟩
    exact ⟨first, behind, _, hfirst, hwhole⟩
  · rintro ⟨first, behind, _, hfirst, hwhole⟩
    exact ⟨first, behind, hfirst.shorter, hfirst, node, rest, hwhole.shorter, hwhole, rfl, rfl⟩

theorem reads_expressions {nodes : List Node} :
    Reads (expressions setting tape) nodes rest ↔
      ∃ first others behind hbehind, Reads (expression setting tape) first behind ∧
        Reads (moreArguments (inside setting tape) behind hbehind) others rest ∧
        nodes = first :: others := by
  unfold expressions
  simp only [reads_bind, reads_pure]
  constructor
  · rintro ⟨first, behind, _, hfirst, others, _, _, hothers, rfl, rfl⟩
    exact ⟨first, others, behind, _, hfirst, hothers, rfl⟩
  · rintro ⟨first, others, behind, _, hfirst, hothers, rfl⟩
    exact ⟨first, behind, hfirst.shorter, hfirst, others, rest, hothers.shorter, hothers, rfl, rfl⟩

end Offside.Expression
