import Offside.Proofs.Grammar.PhraseSoundness

/-!
# What a refusal is about

Every refusal names a cause.  `Offends names passed current cause` says, of the tokens alone, that
it is really there: `current` is the token that fails, or, where a call means nothing, a name and a
complete list of arguments have just been passed.

`Explains` says of a reading that its refusals are about the tape: the token that was refused
stands as the cause says behind the tokens that were passed, and the line is the line of that
token.  There is one lemma for every reader, and `Explains.bind` puts them together.  `front` is
what was passed before the reading began, because a name that is called was.
-/

namespace Offside

open Expression (Derives Level strName dottedTokens)

namespace Wanted

/-- The token is what was wanted. -/
def Admits : Wanted → Token → Prop
  | anyOf kind, token => token.kind = kind
  | exactly form, token => form.agrees (.ofToken token) = true

theorem not_admits_name {token : Token} (h : ∀ name, token = .identifier name → False) :
    ¬ (anyOf .identifier).Admits token := by
  intro hkind
  cases token with
  | identifier name => exact h name rfl
  | number | symbol | string | keyword | operator | layout => cases hkind

theorem not_admits_symbol {token : Token} (h : ∀ character, token = .symbol character → False) :
    ¬ (anyOf .symbol).Admits token := by
  intro hkind
  cases token with
  | symbol character => exact h character rfl
  | number | identifier | string | keyword | operator | layout => cases hkind

theorem not_admits_ofSymbol {character found : Char} (h : found ≠ character) :
    ¬ (exactly (.ofSymbol character)).Admits (.symbol found) := by
  intro hadmits
  have hagrees : (Payload.text character.toString).agrees (.text found.toString) = true := hadmits
  rw [Payload.agrees, beq_iff_eq] at hagrees
  exact h (String.singleton_inj.mp hagrees.symm)

end Wanted

/-- The current token is not in order. -/
inductive Refutes (names : Bindings ClassId) (passed : List Token) (current : Token) :
    SourceCause → Prop
  /-- Another token is expected. -/
  | mismatch {wanted : Wanted} (h : ¬ wanted.Admits current) :
      Refutes names passed current (.mismatch wanted current)
  /-- An operand is expected, and the token begins none. -/
  | unexpectedToken (h : ¬ Level.signed.Begins current) :
      Refutes names passed current (.unexpectedToken current)
  | unclosedBlock (h : current = .eof) : Refutes names passed current .unclosedBlock
  | returnOutsideMethod (h : current = .keyword .returnWord) :
      Refutes names passed current .returnOutsideMethod
  /-- The token stands where a class names its parent, and it names no class. -/
  | undefinedBase {earlier : List Token} {cls name : String}
      (hpassed : passed = earlier ++ [.keyword .classWord, .identifier cls, .symbol '('])
      (hcurrent : current = .identifier name) (hnames : names.get? name = none) :
      Refutes names passed current (.undefinedBase name)

/-- A name and these tokens, which are arguments in parentheses, are a call that means nothing. -/
inductive Miscalls (names : Bindings ClassId) (name : String) : List Token → SourceCause → Prop
  | notClass {values : List Node} {tokens : List Token} (hname : name ≠ strName)
      (hnames : names.get? name = none) (hvalues : Derives names (.arguments values) tokens) :
      Miscalls names name (.symbol '(' :: tokens ++ [.symbol ')']) (.notClass name)
  | wrongStrArity {values : List Node} {tokens : List Token} (hname : name = strName)
      (hlength : values.length ≠ 1) (hvalues : Derives names (.arguments values) tokens) :
      Miscalls names name (.symbol '(' :: tokens ++ [.symbol ')']) .wrongStrArity

/-- Behind these tokens and in front of the current one a cause of refusal is there. -/
inductive Offends (names : Bindings ClassId) (passed : List Token) (current : Token)
    (cause : SourceCause) : Prop
  | token (h : Refutes names passed current cause)
  | call {earlier arguments : List Token} {name : String}
      (hpassed : passed = earlier ++ .identifier name :: arguments)
      (h : Miscalls names name arguments cause)

namespace Tape

variable {α β : Type} {bound larger : Nat} {names : Bindings ClassId} {front : List Token}
  {tape : Tape}

/-- A refusal hands on the fault of the tape, or it is about the token that it refuses. -/
def Blames (names : Bindings ClassId) (front : List Token) (tape : Tape) (refusal : Refusal) :
    Prop :=
  tape.fault? = some refusal.fault ∨
    ∃ tokens stuck, Passes tape tokens stuck ∧
      Offends names (front ++ tokens) stuck.current refusal.fault.cause ∧
      refusal.fault.line = stuck.place.line ∧ refusal.reached = stuck.place.index

/-- A reading that is not refused passes tokens, and a refusal is about what stands on the tape. -/
def Explains (names : Bindings ClassId) (front : List Token) (tape : Tape) :
    Reading α bound → Prop
  | .ok step => ∃ tokens, Passes tape tokens step.rest
  | .error refusal => Blames names front tape refusal

/-! ## Readings one after another -/

theorem Passes.fault?_eq {tokens : List Token} {rest : Tape} (h : Passes tape tokens rest) :
    tape.fault? = rest.fault? := by
  induction h with
  | stay => rfl
  | step token place h ih => exact ih

/-- What is refused behind some tokens is refused behind what stands before them as well. -/
theorem Blames.behind {tokens : List Token} {rest : Tape} {refusal : Refusal}
    (h : Blames names (front ++ tokens) rest refusal) (hpass : Passes tape tokens rest) :
    Blames names front tape refusal := by
  obtain hfault | ⟨more, stuck, hpass', hoffends, hplace⟩ := h
  · exact .inl (hpass.fault?_eq.trans hfault)
  · rw [List.append_assoc] at hoffends
    exact .inr ⟨tokens ++ more, stuck, hpass.append hpass', hoffends, hplace⟩

theorem Explains.behind {tokens : List Token} {rest : Tape} {reading : Reading α bound}
    (h : Explains names (front ++ tokens) rest reading) (hpass : Passes tape tokens rest) :
    Explains names front tape reading := by
  cases reading with
  | ok step =>
      obtain ⟨more, hpass'⟩ := h
      exact ⟨tokens ++ more, hpass.append hpass'⟩
  | error refusal => exact Blames.behind h hpass

theorem explains_pure {step : Step α bound} (h : step.rest = tape) :
    Explains names front tape (pure step : Reading α bound) :=
  ⟨[], passes_nil.mpr h.symm⟩

/-- The second reading may rely on what the first one has read. -/
theorem Explains.bind_reads {reading : Reading α bound} {next : Step α bound → Reading β larger}
    (h : Explains names front tape reading)
    (hnext : ∀ first middle shorter, Reads reading first middle →
      Explains names front tape (next ⟨first, middle, shorter⟩)) :
    Explains names front tape (reading >>= next) := by
  cases reading with
  | error refusal => exact h
  | ok step => exact hnext step.value step.rest step.shorter (reads_ok.mpr ⟨rfl, rfl⟩)

theorem Explains.bind {reading : Reading α bound} {next : Step α bound → Reading β larger}
    (h : Explains names front tape reading)
    (hnext : ∀ tokens first middle shorter,
      Explains names (front ++ tokens) middle (next ⟨first, middle, shorter⟩)) :
    Explains names front tape (reading >>= next) := by
  refine h.bind_reads fun first middle shorter hread => ?_
  obtain ⟨_, rfl⟩ := hread
  obtain ⟨tokens, hpass⟩ := h
  exact (hnext tokens first middle shorter).behind hpass

/-- A computation that can only refuse the current token. -/
theorem Explains.of_except {γ : Type} {computation : Except Refusal γ}
    {next : γ → Reading β larger}
    (h : ∀ refusal, computation = .error refusal → Blames names front tape refusal)
    (hnext : ∀ value, Explains names front tape (next value)) :
    Explains names front tape (computation >>= next) := by
  cases computation with
  | error refusal => exact h refusal rfl
  | ok value => exact hnext value

theorem blames_refuse {cause : SourceCause} (h : Offends names front tape.current cause) :
    Blames names front tape ⟨⟨cause, tape.place.line⟩, tape.place.index⟩ := by
  refine .inr ⟨[], tape, .stay tape, ?_, rfl, rfl⟩
  rwa [List.append_nil]

theorem explains_refuse {cause : SourceCause} (h : Offends names front tape.current cause) :
    Explains names front tape (tape.refuse cause : Reading α bound) :=
  blames_refuse h

theorem explains_advance : Explains names front tape tape.advance := by
  cases tape with
  | ended place beforeLast =>
      exact .inr ⟨[], _, .stay _, .token (.unexpectedToken id), rfl, rfl⟩
  | broken token place fault => exact .inl rfl
  | more token place rest => exact ⟨[token], .step token place (.stay rest)⟩

theorem explains_expectKind {kind : Kind} :
    Explains names front tape (tape.expectKind kind) := by
  unfold expectKind
  split
  · exact explains_advance
  · next hkind => exact explains_refuse (.token (.mismatch hkind))

theorem explains_expectName : Explains names front tape tape.expectName := by
  unfold expectName
  split
  · exact explains_advance.bind fun _ _ _ _ => explains_pure rfl
  · next hother => exact explains_refuse (.token (.mismatch (Wanted.not_admits_name hother)))

theorem explains_expectSymbol {character : Char} :
    Explains names front tape (tape.expectSymbol character) := by
  unfold expectSymbol
  split
  · next found hcurrent =>
      split
      · exact explains_advance
      · next hne =>
          refine explains_refuse (.token ?_)
          rw [hcurrent]
          exact .mismatch (Wanted.not_admits_ofSymbol hne)
  · next hother => exact explains_refuse (.token (.mismatch (Wanted.not_admits_symbol hother)))

end Tape

namespace Expression

open Tape

variable {setting : Setting} {names : Bindings ClassId} {front : List Token}

/-! ## Names -/

theorem explains_namesAfter {separator : Char} {tape : Tape} :
    Explains names front tape (namesAfter separator tape) := by
  induction tape using shorter_induction generalizing front with
  | step tape ih =>
      rw [namesAfter]
      split
      · refine explains_advance.bind fun _ mark middle hmark => ?_
        refine explains_expectName.bind fun _ name behind hname => ?_
        refine (ih behind (by omega)).bind fun _ _ _ _ => ?_
        exact explains_pure rfl
      · exact explains_pure rfl

theorem explains_dottedName {tape : Tape} : Explains names front tape (dottedName tape) := by
  unfold dottedName
  refine explains_expectName.bind fun _ _ _ _ => ?_
  refine explains_namesAfter.bind fun _ _ _ _ => ?_
  exact explains_pure rfl

/-- A name that is called alone was passed last. -/
theorem exists_of_dottedTokens {name : String} {fields : List String} (hfields : fields = []) :
    ∃ earlier, front ++ dottedTokens name fields = earlier ++ [.identifier name] := by
  subst hfields
  exact ⟨front, rfl⟩

section

variable {outer : Tape} {inner : Inner outer}
  (hinner : ∀ (front : List Token) (tape : Tape) (h : tape.length < outer.length),
    Explains setting.classes front tape (inner tape h))
include hinner

/-! ## Arguments and calls -/

theorem explains_moreArguments {tape : Tape} {h : tape.length ≤ outer.length} :
    Explains setting.classes front tape (moreArguments inner tape h) := by
  induction tape using shorter_induction generalizing front with
  | step tape ih =>
      rw [moreArguments]
      split
      · refine explains_advance.bind fun _ comma middle hcomma => ?_
        refine (hinner _ middle _).bind fun _ argument behind hargument => ?_
        refine (ih behind (by omega)).bind fun _ _ _ _ => ?_
        exact explains_pure rfl
      · exact explains_pure rfl

theorem explains_arguments {tape : Tape} {h : tape.length ≤ outer.length} :
    Explains setting.classes front tape (arguments inner tape h) := by
  unfold arguments
  refine explains_expectSymbol.bind fun _ _ opened _ => ?_
  split
  · refine explains_expectSymbol.bind fun _ _ _ _ => ?_
    exact explains_pure rfl
  · unfold someArguments
    refine Explains.bind ?_ fun _ _ _ _ => ?_
    · refine (hinner _ opened _).bind fun _ _ _ _ => ?_
      refine (explains_moreArguments hinner).bind fun _ _ _ _ => ?_
      exact explains_pure rfl
    · refine explains_expectSymbol.bind fun _ _ _ _ => ?_
      exact explains_pure rfl

theorem explains_moreCalls {tape : Tape} {h : tape.length ≤ outer.length} {receiver : Node} :
    Explains setting.classes front tape (moreCalls inner receiver tape h) := by
  induction tape using shorter_induction generalizing front receiver with
  | step tape ih =>
      rw [moreCalls]
      split
      · refine explains_advance.bind fun _ point middle hpoint => ?_
        refine explains_expectName.bind fun _ method named hnamed => ?_
        refine (explains_arguments hinner).bind fun _ values called hcalled => ?_
        refine (ih called (by omega)).bind fun _ _ _ _ => ?_
        exact explains_pure rfl
      · exact explains_pure rfl

omit hinner in
/-- A call that means nothing is refused behind its arguments. -/
theorem blames_of_application {name : String} {fields : List String} {values : List Node}
    {arguments : List Token} {behind : Tape} {refusal : Refusal}
    (hfront : fields = [] → ∃ earlier, front = earlier ++ [.identifier name])
    (hvalues : Derives setting.classes (.arguments values) arguments)
    (h : application setting name fields values behind = .error refusal) :
    Blames setting.classes (front ++ (.symbol '(' :: arguments ++ [.symbol ')'])) behind
      refusal := by
  unfold application at h
  split at h
  · cases h
  · next hfields =>
      obtain ⟨earlier, rfl⟩ := hfront (List.getLast?_eq_none_iff.mp hfields)
      have hpassed (more : List Token) : earlier ++ [.identifier name] ++ more =
          earlier ++ .identifier name :: more := by
        rw [List.append_assoc, List.singleton_append]
      split at h
      · next hname =>
          split at h
          · cases h
          · next hvalues' =>
              cases h
              refine blames_refuse (.call (hpassed _) ?_)
              refine .wrongStrArity hname (fun hlength => ?_) hvalues
              obtain ⟨operand, rfl⟩ := List.length_eq_one_iff.mp hlength
              exact hvalues' operand rfl
      · next hname =>
          split at h
          · cases h
          · next hnames =>
              cases h
              exact blames_refuse (.call (hpassed _) (.notClass hname hnames hvalues))

variable (hspans : ∀ {tape rest : Tape} {h : tape.length < outer.length} {node : Node},
  Reads (inner tape h) node rest → Spans setting.classes tape (.operand .test node) rest)
include hspans

/-- If a name without fields is to be called, it was passed last. -/
theorem explains_reference {tape : Tape} {h : tape.length ≤ outer.length} {name : String}
    {fields : List String}
    (hfront : fields = [] → ∃ earlier, front = earlier ++ [.identifier name]) :
    Explains setting.classes front tape (reference inner setting name fields tape h) := by
  unfold reference
  split
  · refine (explains_arguments hinner).bind_reads fun values called _ hread => ?_
    obtain ⟨tokens, hpass, hvalues⟩ := spans_of_arguments hspans hread
    refine Explains.behind ?_ hpass
    refine Explains.of_except (fun _ => blames_of_application hfront hvalues) fun call => ?_
    refine (explains_moreCalls hinner).bind fun _ _ _ _ => ?_
    exact explains_pure rfl
  · exact explains_pure rfl

/-! ## Operands -/

omit hinner hspans in
/-- Moving past a token of an expression. -/
theorem explains_take {tape : Tape} {α : Type} {f : Token → α} :
    Explains names front tape (do return (← tape.advance).map f : Reading α tape.length) :=
  explains_advance.bind fun _ _ _ _ => explains_pure rfl

theorem explains_primary {tape : Tape} {h : tape.length ≤ outer.length}
    (hsign : tape.current ≠ .symbol '-') :
    Explains setting.classes front tape (primary inner setting tape h) := by
  unfold primary
  dsimp only
  split
  · exact explains_take
  · exact explains_take
  · exact explains_take
  · exact explains_take
  · exact explains_take
  · refine explains_advance.bind fun _ _ opened _ => ?_
    refine (hinner _ opened _).bind fun _ _ _ _ => ?_
    refine explains_expectSymbol.bind fun _ _ _ _ => ?_
    exact explains_pure rfl
  · refine explains_dottedName.bind_reads fun name named _ hread => ?_
    obtain ⟨hpass, -⟩ := reads_dottedName.mp hread
    refine Explains.behind ?_ hpass
    refine (explains_reference hinner hspans exists_of_dottedTokens).bind fun _ _ _ _ => ?_
    exact explains_pure rfl
  · next hnumber hstring htrue hfalse hnone hopening hname =>
      refine explains_refuse (.token (.unexpectedToken fun hbegins => ?_))
      unfold Level.Begins at hbegins
      split at hbegins
      all_goals simp_all [Level.rank]

theorem explains_signed {tape : Tape} {h : tape.length ≤ outer.length} :
    Explains setting.classes front tape (signed inner setting tape h) := by
  induction tape using shorter_induction generalizing front with
  | step tape ih =>
      rw [signed]
      split
      · refine explains_advance.bind fun _ sign behind hsign => ?_
        refine (ih behind hsign).bind fun _ _ _ _ => ?_
        exact explains_pure rfl
      · next hsign => exact explains_primary hinner hspans hsign

/-! ## Operators -/

omit hinner hspans in
theorem explains_joined {joins : Token → Option (Node → Node → Node)}
    {operand : (tape : Tape) → tape.length ≤ outer.length → Reading Node tape.length}
    (hoperand : ∀ (front : List Token) (tape : Tape) (h : tape.length ≤ outer.length),
      Explains names front tape (operand tape h))
    {tape : Tape} {h : tape.length ≤ outer.length} {left : Node} :
    Explains names front tape (joined joins operand left tape h) := by
  induction tape using shorter_induction generalizing front left with
  | step tape ih =>
      rw [joined]
      split
      · exact explains_pure rfl
      · refine explains_advance.bind fun _ operator middle hmiddle => ?_
        refine (hoperand _ middle _).bind fun _ right behind hright => ?_
        refine (ih behind (by omega)).bind fun _ _ _ _ => ?_
        exact explains_pure rfl

theorem explains_productTail {tape : Tape} {h : tape.length ≤ outer.length} {left : Node} :
    Explains setting.classes front tape (productTail inner setting left tape h) :=
  explains_joined fun _ _ _ => explains_signed hinner hspans

theorem explains_product {tape : Tape} {h : tape.length ≤ outer.length} :
    Explains setting.classes front tape (product inner setting tape h) := by
  unfold product
  refine (explains_signed hinner hspans).bind fun _ _ _ _ => ?_
  refine (explains_productTail hinner hspans).bind fun _ _ _ _ => ?_
  exact explains_pure rfl

theorem explains_sumTail {tape : Tape} {h : tape.length ≤ outer.length} {left : Node} :
    Explains setting.classes front tape (sumTail inner setting left tape h) := by
  unfold sumTail
  refine (explains_productTail hinner hspans).bind fun _ _ _ _ => ?_
  refine (explains_joined fun _ _ _ => explains_product hinner hspans).bind fun _ _ _ _ => ?_
  exact explains_pure rfl

theorem explains_sum {tape : Tape} {h : tape.length ≤ outer.length} :
    Explains setting.classes front tape (sum inner setting tape h) := by
  unfold sum
  refine (explains_signed hinner hspans).bind fun _ _ _ _ => ?_
  refine (explains_sumTail hinner hspans).bind fun _ _ _ _ => ?_
  exact explains_pure rfl

theorem explains_comparisonTail {tape : Tape} {h : tape.length ≤ outer.length} {left : Node} :
    Explains setting.classes front tape (comparisonTail inner setting left tape h) := by
  unfold comparisonTail
  refine (explains_sumTail hinner hspans).bind fun _ _ _ _ => ?_
  split
  · exact explains_pure rfl
  · refine explains_advance.bind fun _ _ _ _ => ?_
    refine (explains_sum hinner hspans).bind fun _ _ _ _ => ?_
    exact explains_pure rfl

theorem explains_negated {tape : Tape} {h : tape.length ≤ outer.length} :
    Explains setting.classes front tape (negated inner setting tape h) := by
  induction tape using shorter_induction generalizing front with
  | step tape ih =>
      rw [negated]
      split
      · refine explains_advance.bind fun _ word behind hword => ?_
        refine (ih behind hword).bind fun _ _ _ _ => ?_
        exact explains_pure rfl
      · refine (explains_signed hinner hspans).bind fun _ _ _ _ => ?_
        refine (explains_comparisonTail hinner hspans).bind fun _ _ _ _ => ?_
        exact explains_pure rfl

theorem explains_conjunction {tape : Tape} {h : tape.length ≤ outer.length} :
    Explains setting.classes front tape (conjunction inner setting tape h) := by
  unfold conjunction
  refine (explains_negated hinner hspans).bind fun _ _ _ _ => ?_
  refine (explains_joined fun _ _ _ => explains_negated hinner hspans).bind fun _ _ _ _ => ?_
  exact explains_pure rfl

theorem explains_disjunction {tape : Tape} {h : tape.length ≤ outer.length} :
    Explains setting.classes front tape (disjunction inner setting tape h) := by
  unfold disjunction
  refine (explains_conjunction hinner hspans).bind fun _ _ _ _ => ?_
  refine (explains_joined fun _ _ _ => explains_conjunction hinner hspans).bind fun _ _ _ _ => ?_
  exact explains_pure rfl

theorem explains_disjunctionTail {tape : Tape} {h : tape.length ≤ outer.length} {left : Node} :
    Explains setting.classes front tape (disjunctionTail inner setting left tape h) := by
  unfold disjunctionTail
  refine (explains_comparisonTail hinner hspans).bind fun _ _ _ _ => ?_
  refine (explains_joined fun _ _ _ => explains_negated hinner hspans).bind fun _ _ _ _ => ?_
  refine (explains_joined fun _ _ _ => explains_conjunction hinner hspans).bind fun _ _ _ _ => ?_
  exact explains_pure rfl

end

/-! ## Whole expressions -/

theorem explains_expression {tape : Tape} :
    Explains setting.classes front tape (expression setting tape) := by
  induction tape using shorter_induction generalizing front with
  | step tape ih =>
      rw [expression]
      exact explains_disjunction (fun _ shorter h => ih shorter h) spans_of_expression

/-- The rest of an expression that begins with a dotted name. -/
theorem explains_continued {name : String} {fields : List String} {tape : Tape}
    (hfront : fields = [] → ∃ earlier, front = earlier ++ [.identifier name]) :
    Explains setting.classes front tape (continued setting name fields tape) := by
  have hinner : ∀ (front : List Token) (shorter : Tape) (_ : shorter.length < tape.length),
      Explains setting.classes front shorter (expression setting shorter) :=
    fun _ _ _ => explains_expression
  unfold continued
  refine (explains_reference hinner spans_of_expression hfront).bind fun _ _ _ _ => ?_
  refine (explains_disjunctionTail hinner spans_of_expression).bind fun _ _ _ _ => ?_
  exact explains_pure rfl

theorem explains_expressions {tape : Tape} :
    Explains setting.classes front tape (expressions setting tape) := by
  have hinner : ∀ (front : List Token) (shorter : Tape) (_ : shorter.length < tape.length),
      Explains setting.classes front shorter (expression setting shorter) :=
    fun _ _ _ => explains_expression
  unfold expressions
  refine explains_expression.bind fun _ _ _ _ => ?_
  refine (explains_moreArguments hinner).bind fun _ _ _ _ => ?_
  exact explains_pure rfl

end Expression

end Offside
