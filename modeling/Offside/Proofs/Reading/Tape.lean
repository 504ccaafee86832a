import Offside.Grammar.Expression

/-!
# What a reading takes off a tape

A reader gives a value and the tape behind it, together with a proof that this tape
is short enough for the recursion around the reader.  The theory of readers has no
use for that proof: `Reads reading value rest` says what was read and what is left,
and `reads_bind` takes a composite reading apart and puts it together.

What a reading takes up is the list of tokens between two tapes.  `Passes tape tokens
rest` says that these tokens lead from `tape` to `rest`, and none of them has a fault
behind it.  A reader is then described by the lists of tokens that it passes, and for
readers of names that description is complete (`reads_dottedName`).
-/

namespace Offside.Tape

variable {α β : Type} {bound larger : Nat}

/-- Readers call themselves on shorter tapes. -/
@[elab_as_elim]
theorem shorter_induction {motive : Tape → Prop} (tape : Tape)
    (step : ∀ tape, (∀ shorter, shorter.length < tape.length → motive shorter) → motive tape) :
    motive tape :=
  (measure length).wf.induction tape step

theorem Step.length_rest_lt {tape : Tape} (step : Step α tape.length) :
    step.rest.length < tape.length :=
  step.shorter

theorem Step.length_rest_le {outer tape : Tape} (step : Step α tape.length)
    (h : tape.length ≤ outer.length) : step.rest.length ≤ outer.length :=
  Nat.le_trans (Nat.le_of_lt step.shorter) h

/-! ## Readings -/

/-- A reading that gives a value and leaves a tape. -/
def Reads (reading : Reading α bound) (value : α) (rest : Tape) : Prop :=
  ∃ shorter, reading = .ok ⟨value, rest, shorter⟩

theorem Reads.shorter {reading : Reading α bound} {value : α} {rest : Tape}
    (h : Reads reading value rest) : rest.length < bound :=
  h.1

@[simp] theorem reads_ok {step : Step α bound} {value : α} {rest : Tape} :
    Reads (.ok step) value rest ↔ step.value = value ∧ step.rest = rest := by
  constructor
  · rintro ⟨shorter, h⟩
    cases h
    exact ⟨rfl, rfl⟩
  · rintro ⟨rfl, rfl⟩
    exact ⟨step.shorter, rfl⟩

@[simp] theorem reads_pure {step : Step α bound} {value : α} {rest : Tape} :
    Reads (pure step) value rest ↔ step.value = value ∧ step.rest = rest :=
  reads_ok

@[simp] theorem not_reads_error {refusal : Refusal} {value : α} {rest : Tape} :
    ¬ Reads (.error refusal : Reading α bound) value rest := by
  rintro ⟨shorter, h⟩
  cases h

@[simp] theorem not_reads_refuse {tape : Tape} {cause : SourceCause} {value : α} {rest : Tape} :
    ¬ Reads (tape.refuse cause : Reading α bound) value rest :=
  not_reads_error

/-- What one reading after another gives. -/
theorem reads_bind {reading : Reading α bound} {next : Step α bound → Reading β larger}
    {value : β} {rest : Tape} :
    Reads (reading >>= next) value rest ↔
      ∃ first middle shorter, Reads reading first middle ∧
        Reads (next ⟨first, middle, shorter⟩) value rest := by
  cases reading with
  | error refusal =>
      constructor
      · exact fun h => absurd h not_reads_error
      · rintro ⟨first, middle, shorter, h, -⟩
        exact absurd h not_reads_error
  | ok step =>
      constructor
      · exact fun h => ⟨step.value, step.rest, step.shorter, reads_ok.mpr ⟨rfl, rfl⟩, h⟩
      · rintro ⟨first, middle, shorter, h, hnext⟩
        obtain ⟨rfl, rfl⟩ := reads_ok.mp h
        exact hnext

/-- Changing the value of a reading changes nothing else. -/
theorem reads_map {reading : Reading α bound} {f : α → β} {value : β} {rest : Tape} :
    Reads (reading >>= fun step => pure (step.map f)) value rest ↔
      ∃ first, Reads reading first rest ∧ f first = value := by
  simp only [reads_bind, reads_pure, Step.map]
  constructor
  · rintro ⟨first, _, _, h, rfl, rfl⟩
    exact ⟨first, h, rfl⟩
  · rintro ⟨first, h, rfl⟩
    exact ⟨first, rest, h.shorter, h, rfl, rfl⟩

/-- One reading after another reads what both of them read. -/
theorem Reads.bind {reading : Reading α bound} {next : Step α bound → Reading β larger}
    {first : α} {middle : Tape} {value : β} {rest : Tape} (h : Reads reading first middle)
    (hnext : ∀ shorter, Reads (next ⟨first, middle, shorter⟩) value rest) :
    Reads (reading >>= next) value rest :=
  reads_bind.mpr ⟨first, middle, h.shorter, h, hnext h.shorter⟩

/-! ## The tokens between two tapes -/

/-- Some tokens lead from one tape to another. -/
inductive Passes : Tape → List Token → Tape → Prop
  | stay (tape : Tape) : Passes tape [] tape
  | step {tape rest : Tape} {tokens : List Token} (token : Token) (place : Place)
      (h : Passes tape tokens rest) : Passes (.more token place tape) (token :: tokens) rest

@[simp] theorem passes_nil {tape rest : Tape} : Passes tape [] rest ↔ tape = rest := by
  constructor
  · intro h
    cases h
    rfl
  · rintro rfl
    exact .stay tape

theorem passes_cons {tape rest : Tape} {token : Token} {tokens : List Token} :
    Passes tape (token :: tokens) rest ↔
      ∃ place next, tape = .more token place next ∧ Passes next tokens rest := by
  constructor
  · intro h
    cases h with
    | step _ place h => exact ⟨place, _, rfl, h⟩
  · rintro ⟨place, next, rfl, h⟩
    exact .step token place h

theorem passes_append {tape rest : Tape} {first second : List Token} :
    Passes tape (first ++ second) rest ↔
      ∃ middle, Passes tape first middle ∧ Passes middle second rest := by
  induction first generalizing tape with
  | nil => simp
  | cons token first ih =>
      simp only [List.cons_append, passes_cons, ih]
      constructor
      · rintro ⟨place, next, htape, middle, hfirst, hsecond⟩
        exact ⟨middle, ⟨place, next, htape, hfirst⟩, hsecond⟩
      · rintro ⟨middle, ⟨place, next, htape, hfirst⟩, hsecond⟩
        exact ⟨place, next, htape, middle, hfirst, hsecond⟩

theorem Passes.append {tape middle rest : Tape} {first second : List Token}
    (hfirst : Passes tape first middle) (hsecond : Passes middle second rest) :
    Passes tape (first ++ second) rest :=
  passes_append.mpr ⟨middle, hfirst, hsecond⟩

/-- Some tokens of those between two tapes come first. -/
theorem Passes.split (first : List Token) {tape rest : Tape} {second : List Token}
    (h : Passes tape (first ++ second) rest) :
    ∃ middle, Passes tape first middle ∧ Passes middle second rest :=
  passes_append.mp h

/-- The tokens between two tapes are those by which one is longer. -/
theorem Passes.length_eq {tape rest : Tape} {tokens : List Token} (h : Passes tape tokens rest) :
    tape.length = tokens.length + rest.length := by
  induction h with
  | stay => simp
  | step token place h ih =>
      simp only [length, List.length_cons, ih]
      omega

theorem Passes.length_le {tape rest : Tape} {tokens : List Token} (h : Passes tape tokens rest) :
    rest.length ≤ tape.length := by
  rw [h.length_eq]
  omega

theorem Passes.current_eq {tape rest : Tape} {token : Token} {tokens : List Token}
    (h : Passes tape (token :: tokens) rest) : tape.current = token := by
  obtain ⟨place, next, rfl, -⟩ := passes_cons.mp h
  rfl

/-! ## All tokens of a tape -/

/-- The tokens of a tape without their lines. -/
def words (tape : Tape) : List Token :=
  tape.tokens.map Located.token

theorem Passes.words_eq {tape : Tape} {tokens : List Token} {place : Place} {beforeLast : Nat}
    (h : Passes tape tokens (ended place beforeLast)) : tape.words = tokens ++ [.eof] := by
  generalize hrest : ended place beforeLast = rest at h
  induction h with
  | stay =>
      subst hrest
      rfl
  | step token _ h ih => exact congrArg (token :: ·) (ih hrest)

/-- A tape that leads to the end of the source has no fault. -/
theorem Passes.fault?_eq_none {tape : Tape} {tokens : List Token} {place : Place}
    {beforeLast : Nat} (h : Passes tape tokens (ended place beforeLast)) : tape.fault? = none := by
  generalize hrest : ended place beforeLast = rest at h
  induction h with
  | stay =>
      subst hrest
      rfl
  | step token _ h ih => exact ih hrest

/-- A tape without a fault leads to the end of the source. -/
theorem passes_of_fault?_eq_none {tape : Tape} (h : tape.fault? = none) :
    ∃ tokens place beforeLast, Passes tape tokens (ended place beforeLast) := by
  induction tape with
  | ended place beforeLast => exact ⟨[], place, beforeLast, .stay _⟩
  | broken => cases h
  | more token place rest ih =>
      obtain ⟨tokens, last, beforeLast, hpass⟩ := ih h
      exact ⟨token :: tokens, last, beforeLast, .step token place hpass⟩

/-! ## Readers of single tokens -/

theorem reads_advance {tape rest : Tape} {token : Token} :
    Reads tape.advance token rest ↔ Passes tape [token] rest := by
  cases tape with
  | ended => simp [advance, passes_cons]
  | broken => simp [advance, passes_cons]
  | more found place next => simp [advance, passes_cons]

/-- Moving on from a token that is known. -/
theorem reads_advance_of_current {tape rest : Tape} {found token : Token}
    (hcurrent : tape.current = found) :
    Reads tape.advance token rest ↔ Passes tape [found] rest ∧ token = found := by
  rw [reads_advance]
  constructor
  · intro h
    have htoken : token = found := h.current_eq.symm.trans hcurrent
    exact ⟨htoken ▸ h, htoken⟩
  · rintro ⟨h, rfl⟩
    exact h

theorem reads_expectKind {tape rest : Tape} {kind : Kind} {token : Token} :
    Reads (tape.expectKind kind) token rest ↔ Passes tape [token] rest ∧ token.kind = kind := by
  unfold expectKind
  split
  · rename_i hkind
    rw [reads_advance]
    constructor
    · intro h
      exact ⟨h, h.current_eq ▸ hkind⟩
    · exact And.left
  · rename_i hkind
    constructor
    · exact fun h => absurd h not_reads_refuse
    · rintro ⟨h, htoken⟩
      exact absurd (h.current_eq ▸ htoken) hkind

theorem reads_expectLayout {tape rest : Tape} {mark : Layout} {token : Token} :
    Reads (tape.expectKind (.layout mark)) token rest ↔
      Passes tape [token] rest ∧ token = .layout mark := by
  rw [reads_expectKind]
  cases token <;> simp [Token.kind]

theorem reads_expectKeyword {tape rest : Tape} {word : Keyword} {token : Token} :
    Reads (tape.expectKind (.keyword word)) token rest ↔
      Passes tape [token] rest ∧ token = .keyword word := by
  rw [reads_expectKind]
  cases token <;> simp [Token.kind]

theorem reads_expectName {tape rest : Tape} {name : String} :
    Reads tape.expectName name rest ↔ Passes tape [.identifier name] rest := by
  unfold expectName
  split
  · rename_i found hfound
    simp only [reads_map, reads_advance]
    constructor
    · rintro ⟨token, hpass, rfl⟩
      rwa [← hfound, hpass.current_eq]
    · intro h
      rw [h.current_eq] at hfound
      exact ⟨_, h, (Token.identifier.inj hfound).symm⟩
  · rename_i hother
    constructor
    · exact fun h => absurd h not_reads_refuse
    · exact fun h => absurd h.current_eq (hother name)

theorem reads_expectSymbol {tape rest : Tape} {character : Char} {token : Token} :
    Reads (tape.expectSymbol character) token rest ↔
      Passes tape [token] rest ∧ token = .symbol character := by
  unfold expectSymbol
  split
  · rename_i found hfound
    split
    · rename_i heq
      subst heq
      rw [reads_advance]
      constructor
      · exact fun h => ⟨h, h.current_eq.symm.trans hfound⟩
      · exact And.left
    · rename_i hne
      constructor
      · exact fun h => absurd h not_reads_refuse
      · rintro ⟨h, rfl⟩
        rw [h.current_eq] at hfound
        exact absurd (Token.symbol.inj hfound).symm hne
  · rename_i hother
    constructor
    · exact fun h => absurd h not_reads_refuse
    · rintro ⟨h, rfl⟩
      exact absurd h.current_eq (hother character)

end Offside.Tape
