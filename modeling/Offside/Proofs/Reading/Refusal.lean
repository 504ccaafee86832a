import Offside.Proofs.Grammar.Resolution

/-!
# How far a reading gets

What is read to its end derives from a phrase or a clause.  A reading that is refused has got
somewhere as well, to the token that it refuses.  Of expressions it is enough to know that no
class and no block begins or ends on the way, neither where an expression is read to its end
nor where it is not, and that no refusal is about a block: `StaysPlain`.

There is one lemma for every reader, and `StaysPlain.bind` puts them together as the readers
are put together.
-/

namespace Offside

open Statement (IsPlain PlainToken isPlain_cons)

namespace Tape

variable {α β : Type} {bound larger : Nat} {tape : Tape}

/-- The current token is refused, and not because a block is left open, unless a fault of the tape
says so. -/
def RefusedAt (stuck : Tape) (refusal : Refusal) : Prop :=
  refusal.reached = stuck.place.index ∧
    (refusal.fault.cause = .unclosedBlock → stuck.fault? = some refusal.fault)

/-- A reading passes plain tokens, up to the tape that it leaves or the token that it refuses. -/
def StaysPlain (tape : Tape) : Reading α bound → Prop
  | .ok step => ∃ tokens, Passes tape tokens step.rest ∧ IsPlain tokens
  | .error refusal => ∃ tokens stuck, Passes tape tokens stuck ∧ IsPlain tokens ∧
      RefusedAt stuck refusal

/-! ## Readings one after another -/

theorem staysPlain_pure {step : Step α bound} (h : step.rest = tape) :
    StaysPlain tape (pure step : Reading α bound) :=
  ⟨[], passes_nil.mpr h.symm, .nil⟩

theorem StaysPlain.bind {reading : Reading α bound} {next : Step α bound → Reading β larger}
    (h : StaysPlain tape reading)
    (hnext : ∀ first middle shorter, StaysPlain middle (next ⟨first, middle, shorter⟩)) :
    StaysPlain tape (reading >>= next) := by
  cases reading with
  | error refusal => exact h
  | ok step =>
      obtain ⟨tokens, hpass, hplain⟩ := h
      have hstep := hnext step.value step.rest step.shorter
      change StaysPlain tape (next step)
      cases hresult : next step with
      | error refusal =>
          rw [hresult] at hstep
          obtain ⟨more, stuck, hpass', hplain', hrefused⟩ := hstep
          exact ⟨_, stuck, hpass.append hpass', hplain.append hplain', hrefused⟩
      | ok last =>
          rw [hresult] at hstep
          obtain ⟨more, hpass', hplain'⟩ := hstep
          exact ⟨_, hpass.append hpass', hplain.append hplain'⟩

/-- A computation that can only refuse the current token. -/
theorem StaysPlain.of_except {γ : Type} {computation : Except Refusal γ}
    {next : γ → Reading β larger}
    (h : ∀ refusal, computation = .error refusal → RefusedAt tape refusal)
    (hnext : ∀ value, StaysPlain tape (next value)) :
    StaysPlain tape (computation >>= next) := by
  cases computation with
  | error refusal => exact ⟨[], tape, .stay tape, .nil, h refusal rfl⟩
  | ok value => exact hnext value

/-! ## Single tokens -/

theorem refusedAt_of_advance {refusal : Refusal} (h : tape.advance = .error refusal) :
    RefusedAt tape refusal := by
  cases tape with
  | ended place beforeLast =>
      cases h
      exact ⟨rfl, by simp⟩
  | broken token place fault =>
      cases h
      exact ⟨rfl, fun _ => rfl⟩
  | more token place rest => cases h

theorem refusedAt_of_expectKind {kind : Kind} {refusal : Refusal}
    (h : tape.expectKind kind = .error refusal) : RefusedAt tape refusal := by
  unfold expectKind at h
  split at h
  · exact refusedAt_of_advance h
  · cases h
    exact ⟨rfl, by simp⟩

theorem staysPlain_refuse {cause : SourceCause} (h : cause ≠ .unclosedBlock) :
    StaysPlain tape (tape.refuse cause : Reading α bound) :=
  ⟨[], tape, .stay tape, .nil, rfl, fun heq => absurd heq h⟩

theorem staysPlain_advance (h : PlainToken tape.current) : StaysPlain tape tape.advance := by
  cases hread : tape.advance with
  | error refusal => exact ⟨[], tape, .stay tape, .nil, refusedAt_of_advance hread⟩
  | ok step =>
      have hpass : Passes tape [step.value] step.rest :=
        reads_advance.mp (hread ▸ reads_ok.mpr ⟨rfl, rfl⟩)
      exact ⟨_, hpass, isPlain_cons.mpr ⟨hpass.current_eq ▸ h, .nil⟩⟩

theorem staysPlain_expectKind {kind : Kind}
    (h : ∀ token : Token, token.kind = kind → PlainToken token) :
    StaysPlain tape (tape.expectKind kind) := by
  unfold expectKind
  split
  · next hkind => exact staysPlain_advance (h _ hkind)
  · exact staysPlain_refuse (by simp)

theorem staysPlain_expectName : StaysPlain tape tape.expectName := by
  unfold expectName
  split
  · next name hcurrent =>
      refine (staysPlain_advance (hcurrent ▸ by simp)).bind fun _ _ _ => ?_
      exact staysPlain_pure rfl
  · exact staysPlain_refuse (by simp)

theorem staysPlain_expectSymbol {character : Char} :
    StaysPlain tape (tape.expectSymbol character) := by
  unfold expectSymbol
  split
  · next found hcurrent =>
      split
      · exact staysPlain_advance (hcurrent ▸ by simp)
      · exact staysPlain_refuse (by simp)
  · exact staysPlain_refuse (by simp)

end Tape

namespace Expression

open Tape

variable {setting : Setting}

/-! ## Names -/

theorem staysPlain_namesAfter {separator : Char} {tape : Tape} :
    StaysPlain tape (namesAfter separator tape) := by
  induction tape using shorter_induction with
  | step tape ih =>
      rw [namesAfter]
      split
      · next hcurrent =>
          refine (staysPlain_advance (hcurrent ▸ by simp)).bind
            fun mark middle hmark => ?_
          refine staysPlain_expectName.bind fun name behind hname => ?_
          refine (ih behind (by omega)).bind fun _ _ _ => ?_
          exact staysPlain_pure rfl
      · exact staysPlain_pure rfl

theorem staysPlain_dottedName {tape : Tape} : StaysPlain tape (dottedName tape) := by
  unfold dottedName
  refine staysPlain_expectName.bind fun _ _ _ => ?_
  refine staysPlain_namesAfter.bind fun _ _ _ => ?_
  exact staysPlain_pure rfl

section

variable {outer : Tape} {inner : Inner outer}
  (hinner : ∀ (tape : Tape) (h : tape.length < outer.length), StaysPlain tape (inner tape h))
include hinner

/-! ## Arguments and calls -/

theorem staysPlain_moreArguments {tape : Tape} {h : tape.length ≤ outer.length} :
    StaysPlain tape (moreArguments inner tape h) := by
  induction tape using shorter_induction with
  | step tape ih =>
      rw [moreArguments]
      split
      · next hcurrent =>
          refine (staysPlain_advance (hcurrent ▸ by simp)).bind fun comma middle hcomma => ?_
          refine (hinner middle _).bind fun argument behind hargument => ?_
          refine (ih behind (by omega)).bind fun _ _ _ => ?_
          exact staysPlain_pure rfl
      · exact staysPlain_pure rfl

theorem staysPlain_arguments {tape : Tape} {h : tape.length ≤ outer.length} :
    StaysPlain tape (arguments inner tape h) := by
  unfold arguments
  refine staysPlain_expectSymbol.bind fun _ opened _ => ?_
  split
  · refine staysPlain_expectSymbol.bind fun _ _ _ => ?_
    exact staysPlain_pure rfl
  · unfold someArguments
    refine StaysPlain.bind ?_ fun _ _ _ => ?_
    · refine (hinner opened _).bind fun _ _ _ => ?_
      refine (staysPlain_moreArguments hinner).bind fun _ _ _ => ?_
      exact staysPlain_pure rfl
    · refine staysPlain_expectSymbol.bind fun _ _ _ => ?_
      exact staysPlain_pure rfl

theorem staysPlain_moreCalls {tape : Tape} {h : tape.length ≤ outer.length} {receiver : Node} :
    StaysPlain tape (moreCalls inner receiver tape h) := by
  induction tape using shorter_induction generalizing receiver with
  | step tape ih =>
      rw [moreCalls]
      split
      · next hcurrent =>
          refine (staysPlain_advance (hcurrent ▸ by simp)).bind fun point middle hpoint => ?_
          refine staysPlain_expectName.bind fun method named hnamed => ?_
          refine (staysPlain_arguments hinner).bind fun values called hcalled => ?_
          refine (ih called (by omega)).bind fun _ _ _ => ?_
          exact staysPlain_pure rfl
      · exact staysPlain_pure rfl

omit hinner in
/-- A call that means nothing is refused behind its arguments. -/
theorem refusedAt_of_application {name : String} {fields : List String} {values : List Node}
    {behind : Tape} {refusal : Refusal}
    (h : application setting name fields values behind = .error refusal) :
    RefusedAt behind refusal := by
  unfold application at h
  split at h
  · cases h
  · split at h
    · split at h
      · cases h
      · cases h
        exact ⟨rfl, by simp⟩
    · split at h
      · cases h
      · cases h
        exact ⟨rfl, by simp⟩

theorem staysPlain_reference {tape : Tape} {h : tape.length ≤ outer.length} {name : String}
    {fields : List String} : StaysPlain tape (reference inner setting name fields tape h) := by
  unfold reference
  split
  · refine (staysPlain_arguments hinner).bind fun values called _ => ?_
    refine StaysPlain.of_except (fun _ => refusedAt_of_application) fun call => ?_
    refine (staysPlain_moreCalls hinner).bind fun _ _ _ => ?_
    exact staysPlain_pure rfl
  · exact staysPlain_pure rfl

/-! ## Operands -/

omit hinner in
/-- Moving past a token of an expression. -/
theorem staysPlain_take {tape : Tape} {α : Type} {f : Token → α}
    (h : PlainToken tape.current) :
    StaysPlain tape (do return (← tape.advance).map f : Reading α tape.length) :=
  (staysPlain_advance h).bind fun _ _ _ => staysPlain_pure rfl

theorem staysPlain_primary {tape : Tape} {h : tape.length ≤ outer.length} :
    StaysPlain tape (primary inner setting tape h) := by
  unfold primary
  dsimp only
  split
  · next hcurrent => exact staysPlain_take (hcurrent ▸ by simp [PlainToken])
  · next hcurrent => exact staysPlain_take (hcurrent ▸ by simp [PlainToken])
  · next hcurrent => exact staysPlain_take (hcurrent ▸ by simp [PlainToken])
  · next hcurrent => exact staysPlain_take (hcurrent ▸ by simp [PlainToken])
  · next hcurrent => exact staysPlain_take (hcurrent ▸ by simp [PlainToken])
  · next hcurrent =>
      refine (staysPlain_advance (hcurrent ▸ by simp)).bind fun _ opened _ => ?_
      refine (hinner opened _).bind fun _ _ _ => ?_
      refine staysPlain_expectSymbol.bind fun _ _ _ => ?_
      exact staysPlain_pure rfl
  · refine staysPlain_dottedName.bind fun _ _ _ => ?_
    refine (staysPlain_reference hinner).bind fun _ _ _ => ?_
    exact staysPlain_pure rfl
  · exact staysPlain_refuse (by simp)

theorem staysPlain_signed {tape : Tape} {h : tape.length ≤ outer.length} :
    StaysPlain tape (signed inner setting tape h) := by
  induction tape using shorter_induction with
  | step tape ih =>
      rw [signed]
      split
      · next hcurrent =>
          refine (staysPlain_advance (hcurrent ▸ by simp)).bind fun sign behind hsign => ?_
          refine (ih behind hsign).bind fun _ _ _ => ?_
          exact staysPlain_pure rfl
      · exact staysPlain_primary hinner

/-! ## Operators -/

omit hinner in
theorem staysPlain_joined {joins : Token → Option (Node → Node → Node)}
    {operand : (tape : Tape) → tape.length ≤ outer.length → Reading Node tape.length}
    (hjoins : ∀ token join, joins token = some join → PlainToken token)
    (hoperand : ∀ (tape : Tape) (h : tape.length ≤ outer.length),
      StaysPlain tape (operand tape h))
    {tape : Tape} {h : tape.length ≤ outer.length} {left : Node} :
    StaysPlain tape (joined joins operand left tape h) := by
  induction tape using shorter_induction generalizing left with
  | step tape ih =>
      rw [joined]
      split
      · exact staysPlain_pure rfl
      · next join hjoin =>
          refine (staysPlain_advance (hjoins _ _ hjoin)).bind fun operator middle hmiddle => ?_
          refine (hoperand middle _).bind fun right behind hright => ?_
          refine (ih behind (by omega)).bind fun _ _ _ => ?_
          exact staysPlain_pure rfl

omit hinner in
/-- The operators of a level are plain. -/
theorem plainToken_of_joins (level : Level) (token : Token) (join : Node → Node → Node)
    (h : level.joins token = some join) : PlainToken token :=
  plainToken_of_carriesOn? (carriesOn?_of_joins h)

theorem staysPlain_productTail {tape : Tape} {h : tape.length ≤ outer.length} {left : Node} :
    StaysPlain tape (productTail inner setting left tape h) :=
  staysPlain_joined (plainToken_of_joins .product) fun _ _ => staysPlain_signed hinner

theorem staysPlain_product {tape : Tape} {h : tape.length ≤ outer.length} :
    StaysPlain tape (product inner setting tape h) := by
  unfold product
  refine (staysPlain_signed hinner).bind fun _ _ _ => ?_
  refine (staysPlain_productTail hinner).bind fun _ _ _ => ?_
  exact staysPlain_pure rfl

theorem staysPlain_sumTail {tape : Tape} {h : tape.length ≤ outer.length} {left : Node} :
    StaysPlain tape (sumTail inner setting left tape h) := by
  unfold sumTail
  refine (staysPlain_productTail hinner).bind fun _ _ _ => ?_
  refine (staysPlain_joined (plainToken_of_joins .sum) fun _ _ =>
    staysPlain_product hinner).bind fun _ _ _ => ?_
  exact staysPlain_pure rfl

theorem staysPlain_sum {tape : Tape} {h : tape.length ≤ outer.length} :
    StaysPlain tape (sum inner setting tape h) := by
  unfold sum
  refine (staysPlain_signed hinner).bind fun _ _ _ => ?_
  refine (staysPlain_sumTail hinner).bind fun _ _ _ => ?_
  exact staysPlain_pure rfl

theorem staysPlain_comparisonTail {tape : Tape} {h : tape.length ≤ outer.length} {left : Node} :
    StaysPlain tape (comparisonTail inner setting left tape h) := by
  unfold comparisonTail
  refine (staysPlain_sumTail hinner).bind fun first middle _ => ?_
  split
  · exact staysPlain_pure rfl
  · next found hfound =>
      have hplain := plainToken_of_carriesOn? (carriesOn?_of_relation hfound)
      refine (staysPlain_advance hplain).bind fun _ _ _ => ?_
      refine (staysPlain_sum hinner).bind fun _ _ _ => ?_
      exact staysPlain_pure rfl

theorem staysPlain_negated {tape : Tape} {h : tape.length ≤ outer.length} :
    StaysPlain tape (negated inner setting tape h) := by
  induction tape using shorter_induction with
  | step tape ih =>
      rw [negated]
      split
      · next hcurrent =>
          refine (staysPlain_advance (hcurrent ▸ by simp)).bind fun word behind hword => ?_
          refine (ih behind hword).bind fun _ _ _ => ?_
          exact staysPlain_pure rfl
      · refine (staysPlain_signed hinner).bind fun _ _ _ => ?_
        refine (staysPlain_comparisonTail hinner).bind fun _ _ _ => ?_
        exact staysPlain_pure rfl

theorem staysPlain_conjunction {tape : Tape} {h : tape.length ≤ outer.length} :
    StaysPlain tape (conjunction inner setting tape h) := by
  unfold conjunction
  refine (staysPlain_negated hinner).bind fun _ _ _ => ?_
  refine (staysPlain_joined (plainToken_of_joins .conjunct) fun _ _ =>
    staysPlain_negated hinner).bind fun _ _ _ => ?_
  exact staysPlain_pure rfl

theorem staysPlain_disjunction {tape : Tape} {h : tape.length ≤ outer.length} :
    StaysPlain tape (disjunction inner setting tape h) := by
  unfold disjunction
  refine (staysPlain_conjunction hinner).bind fun _ _ _ => ?_
  refine (staysPlain_joined (plainToken_of_joins .test) fun _ _ =>
    staysPlain_conjunction hinner).bind fun _ _ _ => ?_
  exact staysPlain_pure rfl

theorem staysPlain_disjunctionTail {tape : Tape} {h : tape.length ≤ outer.length} {left : Node} :
    StaysPlain tape (disjunctionTail inner setting left tape h) := by
  unfold disjunctionTail
  refine (staysPlain_comparisonTail hinner).bind fun _ _ _ => ?_
  refine (staysPlain_joined (plainToken_of_joins .conjunct) fun _ _ =>
    staysPlain_negated hinner).bind fun _ _ _ => ?_
  refine (staysPlain_joined (plainToken_of_joins .test) fun _ _ =>
    staysPlain_conjunction hinner).bind fun _ _ _ => ?_
  exact staysPlain_pure rfl

end

/-! ## Whole expressions -/

/-- No class and no block begins or ends within an expression. -/
theorem staysPlain_expression {tape : Tape} : StaysPlain tape (expression setting tape) := by
  induction tape using shorter_induction with
  | step tape ih =>
      rw [expression]
      exact staysPlain_disjunction ih

theorem staysPlain_continued {name : String} {fields : List String} {tape : Tape} :
    StaysPlain tape (continued setting name fields tape) := by
  have hinner : ∀ (shorter : Tape) (_ : shorter.length < tape.length),
      StaysPlain shorter (expression setting shorter) := fun _ _ => staysPlain_expression
  unfold continued
  refine (staysPlain_reference hinner).bind fun _ _ _ => ?_
  refine (staysPlain_disjunctionTail hinner).bind fun _ _ _ => ?_
  exact staysPlain_pure rfl

theorem staysPlain_expressions {tape : Tape} : StaysPlain tape (expressions setting tape) := by
  have hinner : ∀ (shorter : Tape) (_ : shorter.length < tape.length),
      StaysPlain shorter (expression setting shorter) := fun _ _ => staysPlain_expression
  unfold expressions
  refine staysPlain_expression.bind fun _ _ _ => ?_
  refine (staysPlain_moreArguments hinner).bind fun _ _ _ => ?_
  exact staysPlain_pure rfl

end Expression

end Offside
