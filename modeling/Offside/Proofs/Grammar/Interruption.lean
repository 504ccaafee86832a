import Offside.Proofs.Grammar.ClauseSoundness
import Offside.Proofs.Reading.Refusal

/-!
# Sources that are read in part

A reader of statements that is refused has read some clauses to their end, and stands inside
of others.  `Starts base fragment front tokens made` says so of the tokens that it passed: complete
clauses resolve in place, as they do in a source without fault, and around the token that is
refused there are blocks, classes and methods that are open.  Plain tokens close no block, so
nothing that is complete can be hidden among them.

The classes that were made so far are the classes of the complete clauses and, in the order of
their headers, the open ones; an open class has the methods that are complete
(`halts_of_statement`, `halts_of_program`).
-/

namespace Offside.Statement

open Tape

/-! ## Clauses in part -/

/-- What is read in part. -/
inductive Fragment
  | statements
  | statement
  /-- What follows the first block of a conditional. -/
  | branch
  | method
deriving DecidableEq, Repr

/-- The tokens are the beginning of something that is not read to its end; behind `front` they
make these classes. -/
inductive Starts (base : Known) : Fragment → List Token → List Token → List ClassRecord → Prop
  /-- No block was opened yet. -/
  | line (fragment : Fragment) (front : List Token) {tokens : List Token} (h : IsPlain tokens) :
      Starts base fragment front tokens []
  /-- The header of a class is not complete. -/
  | header (front : List Token) {tokens : List Token} (h : IsPlain tokens) :
      Starts base .statement front (.keyword .classWord :: tokens) []
  /-- A block is open, behind the head of a conditional, an `else` or the head of a method. -/
  | block (fragment : Fragment) {front head tokens : List Token} {made : List ClassRecord}
      (hhead : IsPlain head)
      (h : Starts base .statements (front ++ (head ++ [.indent])) tokens made) :
      Starts base fragment front (head ++ [.indent] ++ tokens) made
  /-- The first block of a conditional is complete. -/
  | branch {front head tokens more : List Token} {inMethod : Bool} {consequent : Node}
      {made madeAfter : List ClassRecord} (hhead : IsPlain head)
      (hconsequent : Resolves base (front ++ head) (.suite inMethod consequent) tokens made)
      (h : Starts base .branch (front ++ head ++ tokens) more madeAfter) :
      Starts base .statement front (head ++ tokens ++ more) (made ++ madeAfter)
  /-- A class is open, and these of its methods are complete. -/
  | classDefinition {front header tokens more : List Token} {name : String}
      {parent : Option ClassId} {methods : List Method} {made madeAfter : List ClassRecord}
      (hparent : Inherits (base.behind front).names parent header)
      (hmethods : Resolves base (front ++ headTokens name header) (.methods methods) tokens made)
      (h : Starts base .method (front ++ headTokens name header ++ tokens) more madeAfter) :
      Starts base .statement front (headTokens name header ++ tokens ++ more)
        (⟨name, parent, methods⟩ :: (made ++ madeAfter))
  /-- The first statement of some is not complete. -/
  | first {front tokens : List Token} {made : List ClassRecord}
      (h : Starts base .statement front tokens made) : Starts base .statements front tokens made
  /-- The first statement of some is complete. -/
  | later {front tokens more : List Token} {inMethod : Bool} {node : Node}
      {made madeAfter : List ClassRecord}
      (hfirst : Resolves base front (.statement inMethod node) tokens made)
      (h : Starts base .statements (front ++ tokens) more madeAfter) :
      Starts base .statements front (tokens ++ more) (made ++ madeAfter)

/-! ## Readers that declare nothing -/

variable {α β : Type} {bound larger : Nat} {before after : Declared} {source : Nat}
  {refusal : Refusal} {tape rest : Tape}

/-- A refusal behind plain tokens. -/
def RefusedPlainly (tape : Tape) (refusal : Refusal) : Prop :=
  ∃ tokens stuck, Passes tape tokens stuck ∧ IsPlain tokens ∧ RefusedAt stuck refusal

theorem refusedPlainly_of_refusedAt (h : RefusedAt tape refusal) : RefusedPlainly tape refusal :=
  ⟨[], tape, .stay tape, .nil, h⟩

/-- Tokens that were passed before count as well. -/
theorem RefusedPlainly.behind {head : List Token} {start : Tape}
    (h : RefusedPlainly tape refusal) (hpass : Passes start head tape) (hhead : IsPlain head) :
    RefusedPlainly start refusal := by
  obtain ⟨tokens, stuck, hpass', hplain, hrefused⟩ := h
  exact ⟨_, stuck, hpass.append hpass', hhead.append hplain, hrefused⟩

/-- A reading passes plain tokens and declares nothing. -/
def KeepsPlain (tape : Tape) (before : Declared) (reading : Declaring (Step α bound)) : Prop :=
  match reading before with
  | .ok step after => after = before ∧ ∃ tokens, Passes tape tokens step.rest ∧ IsPlain tokens
  | .error refusal after => after = before ∧ RefusedPlainly tape refusal

theorem keepsPlain_ofReading {reading : Reading α bound} (h : StaysPlain tape reading) :
    KeepsPlain tape before (Declaring.ofReading reading) := by
  cases reading with
  | ok step => exact ⟨rfl, h⟩
  | error refusal => exact ⟨rfl, h⟩

theorem keepsPlain_inSetting {read : Expression.Setting → Reading α bound}
    (h : ∀ setting, StaysPlain tape (read setting)) :
    KeepsPlain tape before (Declaring.inSetting source read) :=
  keepsPlain_ofReading (h _)

theorem keepsPlain_pure {step : Step α bound} (h : step.rest = tape) :
    KeepsPlain tape before (pure step) :=
  ⟨rfl, [], passes_nil.mpr h.symm, .nil⟩

theorem bind_eq_error_iff {γ δ : Type} {reading : Declaring γ} {next : γ → Declaring δ} :
    (reading >>= next) before = .error refusal after ↔
      reading before = .error refusal after ∨
        ∃ first between, reading before = .ok first between ∧
          next first between = .error refusal after := by
  change EStateM.bind reading next before = _ ↔ _
  unfold EStateM.bind
  cases reading before with
  | ok first between => simp
  | error cause between => simp

/-- The two ways in which a composite reading is refused, behind plain tokens and where the
first one declares nothing. -/
theorem KeepsPlain.refused_bind {γ : Type} {reading : Declaring (Step α bound)}
    {next : Step α bound → Declaring γ} {head : List Token} {start : Tape}
    (h : KeepsPlain tape before reading) (hpass : Passes start head tape) (hhead : IsPlain head)
    (herror : (reading >>= next) before = .error refusal after) :
    (after = before ∧ RefusedPlainly start refusal) ∨
      ∃ first middle shorter passed, Declares reading before first middle before ∧
        Passes start passed middle ∧ IsPlain passed ∧
        next ⟨first, middle, shorter⟩ before = .error refusal after := by
  unfold KeepsPlain at h
  obtain hrefused | ⟨step, between, hread, hnext⟩ := bind_eq_error_iff.mp herror
  · rw [hrefused] at h
    exact .inl ⟨h.1, h.2.behind hpass hhead⟩
  · rw [hread] at h
    obtain ⟨rfl, tokens, hpass', hplain⟩ := h
    exact .inr ⟨step.value, step.rest, step.shorter, head ++ tokens, ⟨step.shorter, hread⟩,
      hpass.append hpass', hhead.append hplain, hnext⟩

theorem KeepsPlain.bind {reading : Declaring (Step α bound)}
    {next : Step α bound → Declaring (Step β larger)} (h : KeepsPlain tape before reading)
    (hnext : ∀ first middle shorter, KeepsPlain middle before (next ⟨first, middle, shorter⟩)) :
    KeepsPlain tape before (reading >>= next) := by
  unfold KeepsPlain
  cases hresult : (reading >>= next) before with
  | ok last between =>
      obtain ⟨step, middle, hfirst, hlast⟩ := bind_eq_ok_iff.mp hresult
      unfold KeepsPlain at h
      rw [hfirst] at h
      obtain ⟨rfl, tokens, hpass, hplain⟩ := h
      have hkept := hnext step.value step.rest step.shorter
      unfold KeepsPlain at hkept
      rw [show next ⟨step.value, step.rest, step.shorter⟩ = next step from rfl, hlast] at hkept
      obtain ⟨rfl, more, hpass', hplain'⟩ := hkept
      exact ⟨rfl, _, hpass.append hpass', hplain.append hplain'⟩
  | error cause between =>
      obtain hplain | ⟨first, middle, shorter, more, -, hpass, hplain, herror⟩ :=
        h.refused_bind (.stay tape) .nil hresult
      · exact hplain
      · have hkept := hnext first middle shorter
        unfold KeepsPlain at hkept
        rw [herror] at hkept
        exact ⟨hkept.1, hkept.2.behind hpass hplain⟩

theorem keepsPlain_namedTail {name : String} {fields : List String} :
    KeepsPlain tape before (namedTail source name fields tape) := by
  unfold namedTail
  split
  · next hcurrent =>
      refine (keepsPlain_ofReading (staysPlain_advance (hcurrent ▸ by simp))).bind
        fun _ _ _ => ?_
      refine (keepsPlain_inSetting fun _ => Expression.staysPlain_expression).bind fun _ _ _ => ?_
      exact keepsPlain_pure rfl
  · exact keepsPlain_inSetting fun _ => Expression.staysPlain_continued

theorem keepsPlain_printed : KeepsPlain tape before (printed source tape) := by
  unfold printed
  split
  · exact keepsPlain_pure rfl
  · refine (keepsPlain_inSetting fun _ => Expression.staysPlain_expressions).bind fun _ _ _ => ?_
    exact keepsPlain_pure rfl

theorem keepsPlain_simple {inMethod : Bool} :
    KeepsPlain tape before (simple source inMethod tape) := by
  unfold simple
  split
  · next hcurrent =>
      split
      · refine (keepsPlain_ofReading (staysPlain_advance (hcurrent ▸ by simp))).bind
          fun _ _ _ => ?_
        refine (keepsPlain_inSetting fun _ => Expression.staysPlain_expression).bind
          fun _ _ _ => ?_
        exact keepsPlain_pure rfl
      · exact keepsPlain_ofReading (staysPlain_refuse (by simp))
  · next hcurrent =>
      refine (keepsPlain_ofReading (staysPlain_advance (hcurrent ▸ by simp))).bind
        fun _ _ _ => ?_
      refine keepsPlain_printed.bind fun _ _ _ => ?_
      exact keepsPlain_pure rfl
  · refine (keepsPlain_ofReading Expression.staysPlain_dottedName).bind fun _ _ _ => ?_
    refine keepsPlain_namedTail.bind fun _ _ _ => ?_
    exact keepsPlain_pure rfl
  · exact keepsPlain_inSetting fun _ => Expression.staysPlain_expression

/-- A keyword other than `class`, a line end or a symbol. -/
theorem staysPlain_expectKeyword {word : Keyword} (h : word ≠ .classWord) :
    StaysPlain tape (tape.expectKind (.keyword word)) := by
  refine staysPlain_expectKind fun token hkind => ?_
  cases token <;> simp_all [Token.kind]

theorem staysPlain_expectNewline : StaysPlain tape (tape.expectKind (.layout .newline)) := by
  refine staysPlain_expectKind fun token hkind => ?_
  cases token <;> simp_all [Token.kind, PlainToken]

theorem keepsPlain_line {inMethod : Bool} :
    KeepsPlain tape before (line source inMethod tape) := by
  unfold line
  refine keepsPlain_simple.bind fun _ _ _ => ?_
  refine (keepsPlain_ofReading staysPlain_expectNewline).bind fun _ _ _ => ?_
  exact keepsPlain_pure rfl

theorem staysPlain_parameters : StaysPlain tape (parameters tape) := by
  unfold parameters
  split
  · refine staysPlain_expectName.bind fun _ _ _ => ?_
    refine Expression.staysPlain_namesAfter.bind fun _ _ _ => ?_
    exact staysPlain_pure rfl
  · exact staysPlain_pure rfl

theorem staysPlain_base {setting : Expression.Setting} : StaysPlain tape (base setting tape) := by
  unfold base
  split
  · next name hcurrent =>
      split
      · exact Expression.staysPlain_take (hcurrent ▸ by simp)
      · exact staysPlain_refuse (by simp)
  · exact staysPlain_refuse (by simp)

theorem keepsPlain_parentOf : KeepsPlain tape before (parentOf source tape) := by
  unfold parentOf
  split
  · next hcurrent =>
      refine (keepsPlain_ofReading (staysPlain_advance (hcurrent ▸ by simp))).bind
        fun _ _ _ => ?_
      refine (keepsPlain_inSetting fun _ => staysPlain_base).bind fun _ _ _ => ?_
      refine (keepsPlain_ofReading staysPlain_expectSymbol).bind fun _ _ _ => ?_
      exact keepsPlain_pure rfl
  · exact keepsPlain_pure rfl

/-- A refusal of the current token. -/
theorem refused_at_once {γ : Type} {reading : Reading α bound} {next : Step α bound → Declaring γ}
    (h : ∀ refusal, reading = .error refusal → RefusedAt tape refusal)
    (herror : (Declaring.ofReading reading >>= next) before = .error refusal after) :
    (after = before ∧ RefusedAt tape refusal) ∨
      ∃ first middle shorter, Reads reading first middle ∧
        next ⟨first, middle, shorter⟩ before = .error refusal after := by
  cases reading with
  | ok step =>
      exact .inr ⟨step.value, step.rest, step.shorter, reads_ok.mpr ⟨rfl, rfl⟩, herror⟩
  | error cause =>
      cases herror
      exact .inl ⟨rfl, h _ rfl⟩

/-! ## Readers that declare classes -/

variable {base : Known} {fragment : Fragment} {front head : List Token} {start outer : Tape}
  {inMethod : Bool}

/-- A reading is refused in a fragment of a source, with the classes that the fragment makes. -/
def Halts (base : Known) (fragment : Fragment) (front : List Token) (before : Declared)
    (tape : Tape) (refusal : Refusal) (after : Declared) : Prop :=
  ∃ tokens made stuck, Passes tape tokens stuck ∧ refusal.reached = stuck.place.index ∧
    Starts base fragment front tokens made ∧ base.behind (front ++ tokens) = .of after ∧
    after.classes.records.toList = before.classes.records.toList ++ made

theorem halts_of_isPlain {tokens : List Token} {stuck : Tape} (hpass : Passes tape tokens stuck)
    (hplain : IsPlain tokens) (hreached : refusal.reached = stuck.place.index)
    (hfront : base.Leads front (.of before)) (fragment : Fragment) :
    Halts base fragment front before tape refusal before :=
  ⟨tokens, [], stuck, hpass, hreached, .line fragment front hplain,
    (hfront.append (Known.leads_of_isPlain hplain _)).behind_eq, (List.append_nil _).symm⟩

theorem RefusedPlainly.halts (h : RefusedPlainly tape refusal)
    (hfront : base.Leads front (.of before)) (fragment : Fragment) :
    Halts base fragment front before tape refusal before := by
  obtain ⟨tokens, stuck, hpass, hplain, hreached, -⟩ := h
  exact halts_of_isPlain hpass hplain hreached hfront fragment

/-- The refusal of a header that is not complete. -/
theorem RefusedPlainly.header (h : RefusedPlainly rest refusal)
    (hword : Passes tape [.keyword .classWord] rest) (hfront : base.Leads front (.of before)) :
    Halts base .statement front before tape refusal before := by
  obtain ⟨tokens, stuck, hpass, hplain, hreached, -⟩ := h
  refine ⟨_, [], stuck, hword.append hpass, hreached, .header front hplain, ?_,
    (List.append_nil _).symm⟩
  obtain ⟨names, hnames, hknown⟩ := hfront
  rw [Known.behind, hnames, List.singleton_append, hplain.headers_unfinished, List.append_nil]
  exact hknown

/-- The refusal behind the first block of a conditional. -/
theorem Halts.branch {between : Declared} {tokens : List Token} {began behind : Tape}
    {consequent : Node} {made : List ClassRecord}
    (h : Halts base .branch (front ++ head ++ tokens) between behind refusal after)
    (hpass : Passes tape head began) (hpass' : Passes began tokens behind) (hhead : IsPlain head)
    (hconsequent : Resolves base (front ++ head) (.suite inMethod consequent) tokens made)
    (hmade : between.classes.records.toList = before.classes.records.toList ++ made) :
    Halts base .statement front before tape refusal after := by
  obtain ⟨more, madeAfter, stuck, hmore, hreached, hstarts, hknown, hmade'⟩ := h
  refine ⟨_, _, stuck, (hpass.append hpass').append hmore, hreached,
    .branch hhead hconsequent hstarts, ?_, ?_⟩
  · rw [← hknown]
    simp
  · rw [hmade', hmade, List.append_assoc]

/-- The refusal behind a statement that is complete. -/
theorem Halts.later {between : Declared} {tokens : List Token} {node : Node}
    {made : List ClassRecord}
    (h : Halts base .statements (front ++ tokens) between rest refusal after)
    (hpass : Passes tape tokens rest)
    (hfirst : Resolves base front (.statement inMethod node) tokens made)
    (hmade : between.classes.records.toList = before.classes.records.toList ++ made) :
    Halts base .statements front before tape refusal after := by
  obtain ⟨more, madeAfter, stuck, hmore, hreached, hstarts, hknown, hmade'⟩ := h
  refine ⟨_, _, stuck, hpass.append hmore, hreached, .later hfirst hstarts, ?_, ?_⟩
  · rw [← hknown, List.append_assoc]
  · rw [hmade', hmade, List.append_assoc]

/-- Statements that are all complete may be followed by one that is not. -/
theorem Resolves.starts {nodes : List Node} {tokens : List Token} {made : List ClassRecord}
    (h : Resolves base front (.statements inMethod nodes) tokens made) :
    Starts base .statements front tokens made := by
  induction nodes generalizing front tokens made with
  | nil =>
      cases h
      exact .line .statements front .nil
  | cons first others ih =>
      cases h with
      | statementsMore hfirst hothers => exact .later hfirst (ih hothers)

section

variable (hbase : base.IsSound)
  (hinner : ∀ {inMethod : Bool} {shorter : Tape} {h : shorter.length < outer.length}
    {front : List Token} {before after : Declared} {refusal : Refusal}, shorter.Laid →
    base.Leads front (.of before) →
    within source outer inMethod shorter h before = .error refusal after →
    Halts base .statement front before shorter refusal after)
include hbase hinner

/-! ### Blocks -/

theorem halts_of_statements {h : tape.length < outer.length} (hlaid : tape.Laid)
    (hfront : base.Leads front (.of before))
    (herror : statements (within source outer) inMethod tape h before = .error refusal after) :
    Halts base .statements front before tape refusal after := by
  induction tape using shorter_induction generalizing front before with
  | step tape ih =>
      generalize hreading : statements (within source outer) inMethod tape h = reading at herror
      rw [statements] at hreading
      split at hreading
      · subst hreading
        cases herror
      · subst hreading
        cases herror
        exact halts_of_isPlain (.stay tape) .nil rfl hfront .statements
      · subst hreading
        obtain herror | ⟨first, between, hfirst, herror⟩ := bind_eq_error_iff.mp herror
        · obtain ⟨tokens, made, stuck, hpass, hreached, hstarts, hknown, hmade⟩ :=
            hinner hlaid hfront herror
          exact ⟨tokens, made, stuck, hpass, hreached, .first hstarts, hknown, hmade⟩
        obtain ⟨tokens, made, hpass, hcomposes, hmade⟩ :=
          spans_of_statement hlaid ⟨first.shorter, hfirst⟩
        obtain herror | ⟨others, last, -, herror⟩ := bind_eq_error_iff.mp herror
        · have hrest := ih first.rest first.shorter (hlaid.of_passes hpass)
            (hfront.append hcomposes.leads) herror
          exact hrest.later hpass (hcomposes.resolves hbase hfront) hmade
        · cases herror

theorem halts_of_suite {h : tape.length ≤ outer.length} (hlaid : start.Laid)
    (hpass : Passes start head tape) (hhead : IsPlain head)
    (hfront : base.Leads front (.of before)) (fragment : Fragment)
    (herror : suite (within source outer) inMethod tape h before = .error refusal after) :
    Halts base fragment front before start refusal after := by
  unfold suite at herror
  obtain ⟨rfl, hplain⟩ | ⟨_, ended, _, passed, -, hpassEnded, hpassed, herror⟩ :=
    (keepsPlain_ofReading staysPlain_expectNewline).refused_bind hpass hhead herror
  · exact hplain.halts hfront fragment
  obtain ⟨rfl, hrefused⟩ | ⟨_, opened, _, hopen, herror⟩ :=
    refused_at_once (fun _ => refusedAt_of_expectKind) herror
  · exact ((refusedPlainly_of_refusedAt hrefused).behind hpassEnded hpassed).halts hfront fragment
  obtain ⟨hindent, rfl⟩ := reads_expectLayout.mp hopen
  have hpassOpened := hpassEnded.append hindent
  have hopened : base.Leads (front ++ (passed ++ [.indent])) (.of before) :=
    hfront.append ((Known.leads_of_isPlain hpassed _).append (Known.leads_single (by simp) _))
  have hlaidOpened := hlaid.of_passes hpassOpened
  obtain herror | ⟨block, between, hblock, herror⟩ := bind_eq_error_iff.mp herror
  · obtain ⟨tokens, made, stuck, hpass', hreached, hstarts, hknown, hmade⟩ :=
      halts_of_statements hbase hinner hlaidOpened hopened herror
    refine ⟨_, made, stuck, hpassOpened.append hpass', hreached, .block fragment hpassed hstarts,
      ?_, hmade⟩
    rw [← hknown, List.append_assoc front]
  -- the block was read to its end, and only what closes it is missing
  obtain ⟨tokens, made, hpass', hcomposes, hmade⟩ :=
    spans_of_statements spans_of_statement hlaidOpened ⟨block.shorter, hblock⟩
  obtain ⟨rfl, hreached, -⟩ | ⟨_, _, _, -, herror⟩ :=
    refused_at_once (fun _ => refusedAt_of_advance) herror
  · refine ⟨_, made, block.rest, hpassOpened.append hpass', hreached,
      .block fragment hpassed (hcomposes.resolves hbase hopened).starts, ?_, hmade⟩
    rw [← (hopened.append hcomposes.leads).behind_eq, List.append_assoc front]
  · cases herror

/-! ### Conditionals -/

theorem halts_of_conditional {h : tape.length ≤ outer.length} (hlaid : tape.Laid)
    (hfront : base.Leads front (.of before))
    (herror : conditional source (within source outer) inMethod tape h before =
      .error refusal after) : Halts base .statement front before tape refusal after := by
  unfold conditional at herror
  obtain ⟨rfl, hplain⟩ | ⟨_, _, _, _, -, hpass, hhead, herror⟩ :=
    (keepsPlain_ofReading (staysPlain_expectKeyword (by decide))).refused_bind (.stay tape) .nil
      herror
  · exact hplain.halts hfront .statement
  obtain ⟨rfl, hplain⟩ | ⟨_, _, _, _, -, hpass, hhead, herror⟩ :=
    (keepsPlain_inSetting fun _ => Expression.staysPlain_expression).refused_bind hpass hhead
      herror
  · exact hplain.halts hfront .statement
  obtain ⟨rfl, hplain⟩ | ⟨_, began, _, head, -, hpass, hhead, herror⟩ :=
    (keepsPlain_ofReading staysPlain_expectSymbol).refused_bind hpass hhead herror
  · exact hplain.halts hfront .statement
  obtain herror | ⟨consequent, between, hconsequent, herror⟩ := bind_eq_error_iff.mp herror
  · exact halts_of_suite hbase hinner hlaid hpass hhead hfront .statement herror
  have hlaidBegan := hlaid.of_passes hpass
  obtain ⟨tokens, made, hpass', hcomposes, hmade⟩ :=
    spans_of_suite spans_of_statement hlaidBegan ⟨consequent.shorter, hconsequent⟩
  have hbegan := hfront.append (Known.leads_of_isPlain hhead _)
  have hresolves := hcomposes.resolves hbase hbegan
  have hbehind := hbegan.append hcomposes.leads
  have hbranch : Halts base .branch (front ++ head ++ tokens) between consequent.rest refusal
      after := by
    by_cases hcurrent : consequent.rest.current = .keyword .elseWord
    · rw [if_pos hcurrent] at herror
      obtain ⟨rfl, hplain⟩ | ⟨_, _, _, _, -, hword, hhead', herror⟩ :=
        (keepsPlain_ofReading (staysPlain_advance (hcurrent ▸ by simp))).refused_bind (.stay _)
          .nil herror
      · exact hplain.halts hbehind .branch
      obtain ⟨rfl, hplain⟩ | ⟨_, _, _, _, -, hcolon, hhead', herror⟩ :=
        (keepsPlain_ofReading staysPlain_expectSymbol).refused_bind hword hhead' herror
      · exact hplain.halts hbehind .branch
      obtain herror | ⟨_, _, _, herror⟩ := bind_eq_error_iff.mp herror
      · exact halts_of_suite hbase hinner (hlaidBegan.of_passes hpass') hcolon hhead' hbehind
          .branch herror
      · cases herror
    · rw [if_neg hcurrent] at herror
      cases herror
  exact hbranch.branch hpass hpass' hhead hresolves hmade

/-! ### Classes -/

theorem halts_of_method {h : tape.length ≤ outer.length} (hlaid : tape.Laid)
    (hfront : base.Leads front (.of before))
    (herror : method (within source outer) tape h before = .error refusal after) :
    Halts base .method front before tape refusal after := by
  unfold method at herror
  obtain ⟨rfl, hplain⟩ | ⟨_, _, _, _, -, hpass, hhead, herror⟩ :=
    (keepsPlain_ofReading (staysPlain_expectKeyword (by decide))).refused_bind (.stay tape) .nil
      herror
  · exact hplain.halts hfront .method
  obtain ⟨rfl, hplain⟩ | ⟨_, _, _, _, -, hpass, hhead, herror⟩ :=
    (keepsPlain_ofReading staysPlain_expectName).refused_bind hpass hhead herror
  · exact hplain.halts hfront .method
  obtain ⟨rfl, hplain⟩ | ⟨_, _, _, _, -, hpass, hhead, herror⟩ :=
    (keepsPlain_ofReading staysPlain_expectSymbol).refused_bind hpass hhead herror
  · exact hplain.halts hfront .method
  obtain ⟨rfl, hplain⟩ | ⟨_, _, _, _, -, hpass, hhead, herror⟩ :=
    (keepsPlain_ofReading staysPlain_parameters).refused_bind hpass hhead herror
  · exact hplain.halts hfront .method
  obtain ⟨rfl, hplain⟩ | ⟨_, _, _, _, -, hpass, hhead, herror⟩ :=
    (keepsPlain_ofReading staysPlain_expectSymbol).refused_bind hpass hhead herror
  · exact hplain.halts hfront .method
  obtain ⟨rfl, hplain⟩ | ⟨_, _, _, _, -, hpass, hhead, herror⟩ :=
    (keepsPlain_ofReading staysPlain_expectSymbol).refused_bind hpass hhead herror
  · exact hplain.halts hfront .method
  obtain herror | ⟨_, _, _, herror⟩ := bind_eq_error_iff.mp herror
  · exact halts_of_suite hbase hinner hlaid hpass hhead hfront .method herror
  · cases herror

/-- The methods of a class, some of which are complete; they are those that the class has. -/
theorem halts_of_methods {h : tape.length < outer.length} {old behind : List ClassRecord}
    {record : ClassRecord} {cls : ClassId} (hlaid : tape.Laid) (hcls : old.length = cls)
    (hbefore : before.classes.records.toList = old ++ record :: behind)
    (hfront : base.Leads front (.of before))
    (herror : methods (within source outer) cls tape h before = .error refusal after) :
    ∃ definitions tokens made more madeAfter stuck, Passes tape (tokens ++ more) stuck ∧
      refusal.reached = stuck.place.index ∧
      Resolves base front (.methods definitions) tokens made ∧
      Starts base .method (front ++ tokens) more madeAfter ∧
      base.behind (front ++ (tokens ++ more)) = .of after ∧
      after.classes.records.toList = old ++
        { record with methods := record.methods ++ definitions } ::
          (behind ++ (made ++ madeAfter)) := by
  induction tape using shorter_induction generalizing front before record behind with
  | step tape ih =>
      generalize hreading : methods (within source outer) cls tape h = reading at herror
      rw [methods] at hreading
      split at hreading
      · subst hreading
        cases herror
      subst hreading
      obtain herror | ⟨first, between, hfirst, herror⟩ := bind_eq_error_iff.mp herror
      · obtain ⟨more, madeAfter, stuck, hpass, hreached, hstarts, hknown, hmade⟩ :=
          halts_of_method hbase hinner hlaid hfront herror
        refine ⟨[], [], [], more, madeAfter, stuck, hpass, hreached, .methodsEnd front,
          by simpa using hstarts, hknown, ?_⟩
        rw [hmade, hbefore]
        simp
      obtain ⟨tokens, made, hpass, hcomposes, hmade⟩ :=
        spans_of_method spans_of_statement hlaid ⟨first.shorter, hfirst⟩
      rw [hbefore, List.append_assoc, List.cons_append] at hmade
      have hdefined := Classes.toList_records_define first.value hcls hmade
      have hknown : Known.of { between with
          classes := between.classes.define cls first.value } = .of between := by
        simp only [Known.of, Classes.count, Classes.define, Array.size_modify]
      have hbehind := hfront.append hcomposes.leads
      rw [← hknown] at hbehind
      obtain herror | ⟨_, _, hdefine, herror⟩ := bind_eq_error_iff.mp herror
      · cases herror
      cases hdefine
      obtain herror | ⟨_, _, _, herror⟩ := bind_eq_error_iff.mp herror
      · obtain ⟨definitions, later, madeLater, more, madeAfter, stuck, hpass', hreached,
          hdefinitions, hstarts, hknown', hafter⟩ :=
          ih first.rest first.shorter (hlaid.of_passes hpass) hdefined hbehind herror
        refine ⟨first.value :: definitions, tokens ++ later, made ++ madeLater, more, madeAfter,
          stuck, ?_, hreached, .methodsMore (hcomposes.resolves hbase hfront) hdefinitions, ?_, ?_,
          ?_⟩
        · rw [List.append_assoc]
          exact hpass.append hpass'
        · rwa [← List.append_assoc]
        · rw [← hknown']
          simp
        · rw [hafter]
          simp
      · cases herror

theorem halts_of_classDefinition {h : tape.length ≤ outer.length} (hlaid : tape.Laid)
    (hfront : base.Leads front (.of before))
    (herror : classDefinition source (within source outer) tape h before =
      .error refusal after) : Halts base .statement front before tape refusal after := by
  unfold classDefinition at herror
  obtain ⟨rfl, hrefused⟩ | ⟨_, marked, _, hword, herror⟩ :=
    refused_at_once (fun _ => refusedAt_of_expectKind) herror
  · exact (refusedPlainly_of_refusedAt hrefused).halts hfront .statement
  obtain ⟨hword, rfl⟩ := reads_expectKeyword.mp hword
  -- up to the opening of the body a refusal leaves a header that is not complete
  obtain ⟨rfl, hplain⟩ | ⟨name, named, _, _, hname, hpass, hhead, herror⟩ :=
    (keepsPlain_ofReading staysPlain_expectName).refused_bind (.stay marked) .nil herror
  · exact hplain.header hword hfront
  obtain ⟨rfl, hplain⟩ | ⟨parent, inherited, _, _, hparent, hpass, hhead, herror⟩ :=
    keepsPlain_parentOf.refused_bind hpass hhead herror
  · exact hplain.header hword hfront
  obtain ⟨rfl, hplain⟩ | ⟨_, colon, _, _, hcolon, hpass, hhead, herror⟩ :=
    (keepsPlain_ofReading staysPlain_expectSymbol).refused_bind hpass hhead herror
  · exact hplain.header hword hfront
  obtain ⟨rfl, hplain⟩ | ⟨_, ended, _, _, hending, hpass, hhead, herror⟩ :=
    (keepsPlain_ofReading staysPlain_expectNewline).refused_bind hpass hhead herror
  · exact hplain.header hword hfront
  obtain ⟨rfl, hrefused⟩ | ⟨_, opened, _, hopen, herror⟩ :=
    refused_at_once (fun _ => refusedAt_of_expectKind) herror
  · exact ((refusedPlainly_of_refusedAt hrefused).behind hpass hhead).header hword hfront
  -- the header is complete
  have hname := reads_expectName.mp (declares_ofReading.mp hname).1
  obtain ⟨⟨header, hinherits, hheader, -⟩, -⟩ := declares_parentOf.mp hparent
  obtain ⟨hcolon, rfl⟩ := reads_expectSymbol.mp (declares_ofReading.mp hcolon).1
  obtain ⟨hending, rfl⟩ := reads_expectLayout.mp (declares_ofReading.mp hending).1
  obtain ⟨hopen, rfl⟩ := reads_expectLayout.mp hopen
  have hheadTokens : Passes tape (headTokens name header) opened := by
    have hall := (hword.append (hname.append hheader)).append
      (hcolon.append (hending.append hopen))
    simpa [headTokens] using hall
  have hlaidOpened := hlaid.of_passes hheadTokens
  have hdeclared := Classes.toList_records_declare before.classes name parent
  have hsound : (Known.of before).IsSound := hfront.behind_eq ▸ hbase.behind front
  have hexists : parent.filter (· < before.classes.count) = parent := hsound.parent_eq hinherits
  rw [hexists] at hdeclared
  have hknown : Known.of { before with
      classes := before.classes.declare name parent
      names := before.names.set name before.classes.count } = (Known.of before).declare name := by
    simp only [Known.of, Known.declare, Classes.count, Classes.declare, Array.size_push]
  have hopened := hfront.append (Known.leads_headTokens hinherits _ name)
  rw [← hknown] at hopened
  have hinherits' : Inherits (base.behind front).names parent header := hfront.behind_eq ▸ hinherits
  obtain herror | ⟨_, _, hdeclare, herror⟩ := bind_eq_error_iff.mp herror
  · cases herror
  cases hdeclare
  obtain herror | ⟨body, between, hbody, herror⟩ := bind_eq_error_iff.mp herror
  · obtain ⟨definitions, tokens, made, more, madeAfter, stuck, hpass', hreached, hdefinitions,
      hstarts, hbehind, hafter⟩ := halts_of_methods hbase hinner hlaidOpened
        before.classes.length_toList_records hdeclared hopened herror
    refine ⟨_, _, stuck, ?_, hreached, .classDefinition hinherits' hdefinitions hstarts, ?_, ?_⟩
    · rw [List.append_assoc]
      exact hheadTokens.append hpass'
    · rw [← hbehind]
      simp
    · rw [hafter]
      simp
  -- all methods are complete, and only what closes the class is missing
  obtain ⟨tokens, definitions, made, hpass', hcomposes, -, hmade⟩ :=
    spans_of_methods spans_of_statement hlaidOpened before.classes.length_toList_records hdeclared
      ⟨body.shorter, hbody⟩
  obtain ⟨rfl, hreached, -⟩ | ⟨_, _, _, -, herror⟩ :=
    refused_at_once (fun _ => refusedAt_of_advance) herror
  · have hbehind := hopened.append hcomposes.leads
    refine ⟨headTokens name header ++ tokens ++ [], _, body.rest, ?_, hreached,
      .classDefinition hinherits' (hcomposes.resolves hbase hopened)
        (.line .method _ .nil), ?_, ?_⟩
    · rw [List.append_nil]
      exact hheadTokens.append hpass'
    · rw [← hbehind.behind_eq]
      simp
    · rw [hmade]
      simp
  · cases herror

end

/-! ### Statements and programs -/

/-- A statement that is refused is read in part. -/
theorem halts_of_statement (hbase : base.IsSound) (hlaid : tape.Laid)
    (hfront : base.Leads front (.of before))
    (herror : statement source inMethod tape before = .error refusal after) :
    Halts base .statement front before tape refusal after := by
  induction tape using shorter_induction generalizing inMethod front before refusal after with
  | step tape ih =>
      have hinner {inMethod : Bool} {shorter : Tape} {h : shorter.length < tape.length}
          {front : List Token} {before after : Declared} {refusal : Refusal}
          (hlaid : shorter.Laid) (hfront : base.Leads front (.of before))
          (herror : within source tape inMethod shorter h before = .error refusal after) :
          Halts base .statement front before shorter refusal after :=
        ih shorter h hlaid hfront herror
      rw [statement] at herror
      generalize hreading : layer source (fun within shorter _ => statement source within shorter)
        inMethod tape (Nat.le_refl _) = reading at herror
      unfold layer at hreading
      split at hreading
      · subst hreading
        exact halts_of_classDefinition hbase hinner hlaid hfront herror
      · subst hreading
        exact halts_of_conditional hbase hinner hlaid hfront herror
      · subst hreading
        have hkept := @keepsPlain_line before source tape inMethod
        unfold KeepsPlain at hkept
        rw [herror] at hkept
        obtain ⟨rfl, hplain⟩ := hkept
        exact hplain.halts hfront .statement

/-- A program is refused where its first statement is, or else behind it. -/
theorem program_eq_error_iff :
    program source tape before = .error refusal after ↔
      tape.current ≠ .eof ∧ (statement source false tape before = .error refusal after ∨
        ∃ node behind between, Declares (statement source false tape) before node behind between ∧
          program source behind between = .error refusal after) := by
  rw [program]
  split
  · next hcurrent =>
      constructor
      · rintro ⟨⟩
      · exact fun h => absurd hcurrent h.1
  · next hcurrent =>
      rw [bind_eq_error_iff]
      constructor
      · rintro (hfirst | ⟨first, between, hfirst, herror⟩)
        · exact ⟨hcurrent, .inl hfirst⟩
        · obtain herror | ⟨_, _, -, herror⟩ := bind_eq_error_iff.mp herror
          · exact ⟨hcurrent, .inr ⟨_, _, between, ⟨first.shorter, hfirst⟩, herror⟩⟩
          · cases herror
      · rintro ⟨-, hfirst | ⟨node, behind, between, ⟨shorter, hfirst⟩, herror⟩⟩
        · exact .inl hfirst
        · exact .inr ⟨_, between, hfirst, bind_eq_error_iff.mpr (.inl herror)⟩

/-- A program that is refused is read in part. -/
theorem halts_of_program (hbase : base.IsSound) (hlaid : tape.Laid)
    (hfront : base.Leads front (.of before))
    (herror : program source tape before = .error refusal after) :
    Halts base .statements front before tape refusal after := by
  induction tape using shorter_induction generalizing front before with
  | step tape ih =>
      obtain ⟨-, herror | ⟨node, behind, between, hfirst, herror⟩⟩ :=
        program_eq_error_iff.mp herror
      · obtain ⟨tokens, made, stuck, hpass, hreached, hstarts, hknown, hmade⟩ :=
          halts_of_statement hbase hlaid hfront herror
        exact ⟨tokens, made, stuck, hpass, hreached, .first hstarts, hknown, hmade⟩
      · obtain ⟨tokens, made, hpass, hcomposes, hmade⟩ := spans_of_statement hlaid hfirst
        have hrest := ih behind hfirst.shorter (hlaid.of_passes hpass)
          (hfront.append hcomposes.leads) herror
        exact hrest.later hpass (hcomposes.resolves hbase hfront) hmade

end Offside.Statement
