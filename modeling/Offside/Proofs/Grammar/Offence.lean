import Offside.Proofs.Grammar.Interruption
import Offside.Proofs.Reading.Offence
import Offside.Proofs.Scanning.Balance

/-!
# What the refusal of a program is about

The readers of statements, one after another, as those of expressions before: whatever was
declared by then, a refusal is about the token that is refused, or about the call that was just
passed, and what a name means there is what it means when reading stops (`blames_of_program`).

Only the parent of a class depends on what was passed before its reader began, which is the word
`class` and a name.
-/

namespace Offside.Statement

open Tape
open Declaring (ofReading inSetting)

variable {α β : Type} {bound larger : Nat} {source : Nat} {front : List Token} {tape : Tape}

/-- Whatever was declared before, a reading that is not refused passes tokens, and a refusal is
about what stands on the tape. -/
def Accounts (front : List Token) (tape : Tape) (reading : Declaring (Step α bound)) : Prop :=
  ∀ before, match reading before with
    | .ok step _ => ∃ tokens, Passes tape tokens step.rest
    | .error refusal after => Blames after.names front tape refusal

/-! ## Readings one after another -/

theorem accounts_pure {step : Step α bound} (h : step.rest = tape) :
    Accounts front tape (pure step : Declaring (Step α bound)) :=
  fun _ => ⟨[], passes_nil.mpr h.symm⟩

theorem accounts_ofReading {reading : Reading α bound}
    (h : ∀ names, Explains names front tape reading) :
    Accounts front tape (ofReading reading) := by
  intro before
  cases reading with
  | ok step => exact h before.names
  | error refusal => exact h before.names

theorem accounts_inSetting {read : Expression.Setting → Reading α bound}
    (h : ∀ setting, Explains setting.classes front tape (read setting)) :
    Accounts front tape (inSetting source read) := by
  intro before
  have hread := h ⟨source, before.names⟩
  unfold inSetting
  cases hresult : read ⟨source, before.names⟩ with
  | ok step =>
      rw [hresult] at hread
      exact hread
  | error refusal =>
      rw [hresult] at hread
      exact hread

theorem Accounts.behind {tokens : List Token} {rest : Tape} {reading : Declaring (Step α bound)}
    (h : Accounts (front ++ tokens) rest reading) (hpass : Passes tape tokens rest) :
    Accounts front tape reading := by
  intro before
  have hread := h before
  cases hresult : reading before with
  | ok step after =>
      rw [hresult] at hread
      obtain ⟨more, hpass'⟩ := hread
      exact ⟨tokens ++ more, hpass.append hpass'⟩
  | error refusal after =>
      rw [hresult] at hread
      exact Blames.behind hread hpass

/-- The second reading may rely on what the first one has read. -/
theorem Accounts.bind_declares {reading : Declaring (Step α bound)}
    {next : Step α bound → Declaring (Step β larger)} (h : Accounts front tape reading)
    (hnext : ∀ {before after} first middle shorter, Declares reading before first middle after →
      Accounts front tape (next ⟨first, middle, shorter⟩)) :
    Accounts front tape (reading >>= next) := by
  intro before
  cases hresult : (reading >>= next) before with
  | ok last after =>
      obtain ⟨step, between, hfirst, hlast⟩ := bind_eq_ok_iff.mp hresult
      have hrest := hnext step.value step.rest step.shorter ⟨step.shorter, hfirst⟩ between
      rw [show next ⟨step.value, step.rest, step.shorter⟩ = next step from rfl, hlast] at hrest
      exact hrest
  | error refusal after =>
      obtain hrefused | ⟨step, between, hfirst, herror⟩ := bind_eq_error_iff.mp hresult
      · have hread := h before
        rw [hrefused] at hread
        exact hread
      · have hrest := hnext step.value step.rest step.shorter ⟨step.shorter, hfirst⟩ between
        rw [show next ⟨step.value, step.rest, step.shorter⟩ = next step from rfl, herror] at hrest
        exact hrest

theorem Accounts.bind {reading : Declaring (Step α bound)}
    {next : Step α bound → Declaring (Step β larger)} (h : Accounts front tape reading)
    (hnext : ∀ tokens first middle shorter,
      Accounts (front ++ tokens) middle (next ⟨first, middle, shorter⟩)) :
    Accounts front tape (reading >>= next) := by
  refine h.bind_declares fun {before after} first middle shorter hfirst => ?_
  obtain ⟨_, hfirst⟩ := hfirst
  have hread := h before
  rw [hfirst] at hread
  obtain ⟨tokens, hpass⟩ := hread
  exact (hnext tokens first middle shorter).behind hpass

/-- What only declares is never refused. -/
theorem accounts_bind_of_total {γ : Type} {computation : Declaring γ}
    {next : γ → Declaring (Step β larger)}
    (h : ∀ before, ∃ value after, computation before = .ok value after)
    (hnext : ∀ value, Accounts front tape (next value)) :
    Accounts front tape (computation >>= next) := by
  intro before
  obtain ⟨value, after, hvalue⟩ := h before
  have hbind : (computation >>= next) before = next value after := by
    change EStateM.bind computation next before = _
    unfold EStateM.bind
    rw [hvalue]
  rw [hbind]
  exact hnext value after

/-! ## Single tokens -/

theorem accounts_advance : Accounts front tape (ofReading tape.advance) :=
  accounts_ofReading fun _ => explains_advance

theorem accounts_expectKind {kind : Kind} :
    Accounts front tape (ofReading (tape.expectKind kind)) :=
  accounts_ofReading fun _ => explains_expectKind

theorem accounts_expectName : Accounts front tape (ofReading tape.expectName) :=
  accounts_ofReading fun _ => explains_expectName

theorem accounts_expectSymbol {character : Char} :
    Accounts front tape (ofReading (tape.expectSymbol character)) :=
  accounts_ofReading fun _ => explains_expectSymbol

/-! ## Simple statements -/

theorem accounts_expression :
    Accounts front tape (inSetting source fun setting => Expression.expression setting tape) :=
  accounts_inSetting fun _ => Expression.explains_expression

/-- If a name without fields is to be called, it was passed last. -/
theorem accounts_namedTail {name : String} {fields : List String}
    (hfront : fields = [] → ∃ earlier, front = earlier ++ [.identifier name]) :
    Accounts front tape (namedTail source name fields tape) := by
  unfold namedTail
  split
  · refine accounts_advance.bind fun _ _ _ _ => ?_
    refine accounts_expression.bind fun _ _ _ _ => ?_
    exact accounts_pure rfl
  · exact accounts_inSetting fun _ => Expression.explains_continued hfront

theorem accounts_printed : Accounts front tape (printed source tape) := by
  unfold printed
  split
  · exact accounts_pure rfl
  · refine (accounts_inSetting fun _ => Expression.explains_expressions).bind fun _ _ _ _ => ?_
    exact accounts_pure rfl

theorem accounts_simple {inMethod : Bool} :
    Accounts front tape (simple source inMethod tape) := by
  unfold simple
  split
  · next hcurrent =>
      split
      · refine accounts_advance.bind fun _ _ _ _ => ?_
        refine accounts_expression.bind fun _ _ _ _ => ?_
        exact accounts_pure rfl
      · exact accounts_ofReading fun _ =>
          explains_refuse (.token (.returnOutsideMethod hcurrent))
  · refine accounts_advance.bind fun _ _ _ _ => ?_
    refine accounts_printed.bind fun _ _ _ _ => ?_
    exact accounts_pure rfl
  · refine (accounts_ofReading fun _ => Expression.explains_dottedName).bind_declares
      fun name named _ hname => ?_
    obtain ⟨hpass, -⟩ := Expression.reads_dottedName.mp (declares_ofReading.mp hname).1
    refine Accounts.behind ?_ hpass
    refine (accounts_namedTail Expression.exists_of_dottedTokens).bind fun _ _ _ _ => ?_
    exact accounts_pure rfl
  · exact accounts_expression

theorem accounts_line {inMethod : Bool} : Accounts front tape (line source inMethod tape) := by
  unfold line
  refine accounts_simple.bind fun _ _ _ _ => ?_
  refine accounts_expectKind.bind fun _ _ _ _ => ?_
  exact accounts_pure rfl

/-! ## Heads -/

theorem explains_parameters {names : Bindings ClassId} :
    Explains names front tape (parameters tape) := by
  unfold parameters
  split
  · refine explains_expectName.bind fun _ _ _ _ => ?_
    refine Expression.explains_namesAfter.bind fun _ _ _ _ => ?_
    exact explains_pure rfl
  · exact explains_pure rfl

/-- The parent of a class stands behind the name of the class and an opening parenthesis. -/
theorem explains_base {setting : Expression.Setting} {earlier : List Token} {cls : String}
    (hfront : front = earlier ++ [.keyword .classWord, .identifier cls, .symbol '(']) :
    Explains setting.classes front tape (base setting tape) := by
  unfold base
  split
  · next name hcurrent =>
      split
      · exact Expression.explains_take
      · next hnames =>
          exact explains_refuse (.token (.undefinedBase hfront hcurrent hnames))
  · next hother => exact explains_refuse (.token (.mismatch (Wanted.not_admits_name hother)))

theorem accounts_parentOf {earlier : List Token} {cls : String}
    (hfront : front = earlier ++ [.keyword .classWord, .identifier cls]) :
    Accounts front tape (parentOf source tape) := by
  unfold parentOf
  split
  · next hcurrent =>
      refine accounts_advance.bind_declares fun _ opened _ hopening => ?_
      obtain ⟨hpass, -⟩ :=
        (reads_advance_of_current hcurrent).mp (declares_ofReading.mp hopening).1
      have hopened : front ++ [.symbol '('] =
          earlier ++ [.keyword .classWord, .identifier cls, .symbol '('] := by
        rw [hfront, List.append_assoc]
        rfl
      refine Accounts.behind ?_ hpass
      refine (accounts_inSetting fun _ => explains_base hopened).bind fun _ _ _ _ => ?_
      refine accounts_expectSymbol.bind fun _ _ _ _ => ?_
      exact accounts_pure rfl
  · exact accounts_pure rfl

section

variable {outer : Tape} {inner : Inner outer}
  (hinner : ∀ (front : List Token) (inMethod : Bool) (tape : Tape)
    (h : tape.length < outer.length), Accounts front tape (inner inMethod tape h))
include hinner

/-! ## Blocks -/

theorem accounts_statements {inMethod : Bool} {h : tape.length < outer.length} :
    Accounts front tape (statements inner inMethod tape h) := by
  induction tape using shorter_induction generalizing front with
  | step tape ih =>
      rw [statements]
      split
      · exact accounts_pure rfl
      · next hcurrent =>
          exact accounts_ofReading fun _ => explains_refuse (.token (.unclosedBlock hcurrent))
      · refine (hinner _ inMethod tape h).bind fun _ first behind hbehind => ?_
        refine (ih behind hbehind).bind fun _ _ _ _ => ?_
        exact accounts_pure rfl

theorem accounts_suite {inMethod : Bool} {h : tape.length ≤ outer.length} :
    Accounts front tape (suite inner inMethod tape h) := by
  unfold suite
  refine accounts_expectKind.bind fun _ _ _ _ => ?_
  refine accounts_expectKind.bind fun _ _ _ _ => ?_
  refine (accounts_statements hinner).bind fun _ _ _ _ => ?_
  refine accounts_advance.bind fun _ _ _ _ => ?_
  exact accounts_pure rfl

theorem accounts_conditional {inMethod : Bool} {h : tape.length ≤ outer.length} :
    Accounts front tape (conditional source inner inMethod tape h) := by
  unfold conditional
  refine accounts_expectKind.bind fun _ _ _ _ => ?_
  refine accounts_expression.bind fun _ _ _ _ => ?_
  refine accounts_expectSymbol.bind fun _ _ _ _ => ?_
  refine (accounts_suite hinner).bind fun _ _ _ _ => ?_
  split
  · refine accounts_advance.bind fun _ _ _ _ => ?_
    refine accounts_expectSymbol.bind fun _ _ _ _ => ?_
    refine (accounts_suite hinner).bind fun _ _ _ _ => ?_
    exact accounts_pure rfl
  · exact accounts_pure rfl

/-! ## Classes -/

theorem accounts_method {h : tape.length ≤ outer.length} :
    Accounts front tape (method inner tape h) := by
  unfold method
  refine accounts_expectKind.bind fun _ _ _ _ => ?_
  refine accounts_expectName.bind fun _ _ _ _ => ?_
  refine accounts_expectSymbol.bind fun _ _ _ _ => ?_
  refine (accounts_ofReading fun _ => explains_parameters).bind fun _ _ _ _ => ?_
  refine accounts_expectSymbol.bind fun _ _ _ _ => ?_
  refine accounts_expectSymbol.bind fun _ _ _ _ => ?_
  refine (accounts_suite hinner).bind fun _ _ _ _ => ?_
  exact accounts_pure rfl

theorem accounts_methods {cls : ClassId} {h : tape.length < outer.length} :
    Accounts front tape (methods inner cls tape h) := by
  induction tape using shorter_induction generalizing front with
  | step tape ih =>
      rw [methods]
      split
      · exact accounts_pure rfl
      · refine (accounts_method hinner).bind fun _ first behind hbehind => ?_
        refine accounts_bind_of_total (fun _ => ⟨_, _, rfl⟩) fun _ => ?_
        refine (ih behind hbehind).bind fun _ _ _ _ => ?_
        exact accounts_pure rfl

theorem accounts_classDefinition {h : tape.length ≤ outer.length} :
    Accounts front tape (classDefinition source inner tape h) := by
  unfold classDefinition
  -- the word and the name are what the parent depends on
  refine accounts_expectKind.bind_declares fun _ marked _ hword => ?_
  obtain ⟨hmarked, rfl⟩ := reads_expectKeyword.mp (declares_ofReading.mp hword).1
  refine Accounts.behind ?_ hmarked
  refine accounts_expectName.bind_declares fun name named _ hname => ?_
  have hnamed := reads_expectName.mp (declares_ofReading.mp hname).1
  refine Accounts.behind ?_ hnamed
  refine (accounts_parentOf (List.append_assoc _ _ _)).bind fun _ _ _ _ => ?_
  refine accounts_expectSymbol.bind fun _ _ _ _ => ?_
  refine accounts_expectKind.bind fun _ _ _ _ => ?_
  refine accounts_expectKind.bind fun _ _ _ _ => ?_
  refine accounts_bind_of_total (fun _ => ⟨_, _, rfl⟩) fun _ => ?_
  refine (accounts_methods hinner).bind fun _ _ _ _ => ?_
  refine accounts_advance.bind fun _ _ _ _ => ?_
  refine accounts_bind_of_total (fun _ => ⟨_, _, rfl⟩) fun _ => ?_
  exact accounts_pure rfl

end

/-! ## Statements and programs -/

theorem accounts_statement {inMethod : Bool} :
    Accounts front tape (statement source inMethod tape) := by
  induction tape using shorter_induction generalizing inMethod front with
  | step tape ih =>
      have hinner (front : List Token) (inMethod : Bool) (shorter : Tape)
          (h : shorter.length < tape.length) :
          Accounts front shorter (statement source inMethod shorter) := ih shorter h
      rw [statement]
      unfold layer
      split
      · exact accounts_classDefinition hinner
      · exact accounts_conditional hinner
      · exact accounts_line

/-- The refusal of a program is about what stands on its tape. -/
theorem blames_of_program {before after : Declared} {refusal : Refusal}
    (h : program source tape before = .error refusal after) :
    Blames after.names front tape refusal := by
  induction tape using shorter_induction generalizing front before with
  | step tape ih =>
      have hfirst := @accounts_statement source front tape false before
      obtain ⟨-, herror | ⟨node, behind, between, ⟨shorter, hread⟩, herror⟩⟩ :=
        program_eq_error_iff.mp h
      · rw [herror] at hfirst
        exact hfirst
      · rw [hread] at hfirst
        obtain ⟨tokens, hpass⟩ := hfirst
        exact (ih behind shorter herror).behind hpass

end Offside.Statement

/-! ## Families of faults -/

namespace Offside

/-- Where reading a tape stops with a fault, and of which family the fault is then. -/
inductive Tape.Stops (names : Bindings ClassId) (tape : Tape) (fault : SourceFault) :
    String → Prop
  /-- The scanner has no more tokens. -/
  | scanning (h : tape.fault? = some fault) : Stops names tape fault "LexerError"
  /-- One token is expected, and another one stands there. -/
  | expecting {tokens : List Token} {stuck : Tape} {wanted : Wanted}
      (hpass : Passes tape tokens stuck) (hcause : fault.cause = .mismatch wanted stuck.current)
      (hwanted : ¬ wanted.Admits stuck.current) : Stops names tape fault "LexerError"
  /-- No one token is expected, but what stands there breaks a rule. -/
  | parsing {tokens : List Token} {stuck : Tape} (hpass : Passes tape tokens stuck)
      (hoffends : Offends names tokens stuck.current fault.cause)
      (hcause : ∀ wanted found, fault.cause ≠ .mismatch wanted found) :
      Stops names tape fault "ParseError"

/-- What offends is a token in the place of another one, or it is a matter of the grammar. -/
theorem Offends.cases_cause {names : Bindings ClassId} {passed : List Token} {current : Token}
    {cause : SourceCause} (h : Offends names passed current cause) :
    (∃ wanted, cause = .mismatch wanted current ∧ ¬ wanted.Admits current) ∨
      cause.isLexical = false := by
  cases h with
  | token h =>
      cases h with
      | mismatch hwanted => exact .inl ⟨_, rfl, hwanted⟩
      | unexpectedToken | unclosedBlock | returnOutsideMethod | undefinedBase => exact .inr rfl
  | call _ h => cases h <;> exact .inr rfl

/-- The place where reading a source stops settles the family of the fault. -/
theorem Program.stops_of_read {source : Nat} {classes : Classes} {names : Bindings ClassId}
    {tape : Tape} {text : String} {fault : SourceFault} (htape : Tape.ofString text = .ok tape)
    (h : (read source classes names tape).result = .error fault) :
    tape.Stops (read source classes names tape).declared.names fault fault.family := by
  unfold read at h ⊢
  split at h
  · cases h
  · next refusal declared hprogram =>
      cases h
      have hblames : Tape.Blames declared.names [] tape refusal :=
        Statement.blames_of_program hprogram
      obtain hfault | ⟨tokens, stuck, hpass, hoffends, -⟩ := hblames
      · rw [SourceFault.family_of_isLexical (Tape.isLexical_of_ofString htape hfault)]
        exact .scanning hfault
      · obtain ⟨wanted, hcause, hwanted⟩ | hgrammar := hoffends.cases_cause
        · rw [SourceFault.family_of_isLexical (by rw [hcause]; rfl)]
          exact .expecting hpass hcause hwanted
        · rw [SourceFault.family_of_not_isLexical hgrammar]
          refine .parsing hpass hoffends fun wanted found hcause => ?_
          rw [hcause] at hgrammar
          cases hgrammar

end Offside
