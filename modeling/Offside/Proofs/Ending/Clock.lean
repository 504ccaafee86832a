import Offside.Grammar.Tape
import Offside.Proofs.Ending.Scanning

/-!
# Reading with a clock

A tape is a finite thing, and nobody moves past its end.  A cursor is another matter: it stands on
the end of the source and is moved on as often as one likes, so a loop that waits for a token that
does not come may wait for ever.  `Clocked` is reading off a cursor where this may happen, and
where every loop and every recursion is therefore given so many turns and gives up as `late`.

`Cursor.Shows` says that a cursor goes over the tokens of a tape.  `Agrees` compares a clocked
reader with a reading of the model: on every cursor that shows the tape, the clocked reader is not
late, it comes to the same value or the same refusal, and it leaves a cursor that shows the tape
that the reading leaves.  The rules below are what the readers are compared by; each of them asks
no more turns than there are tokens.
-/

namespace Offside

/-! ## Cursors and tapes -/

namespace Cursor

/-- The cursor stands on this token at this place. -/
structure StandsOn (cursor : Cursor) (token : Token) (place : Place) : Prop where
  current : cursor.current = ⟨token, place.line⟩
  index : cursor.passed.length = place.index

/-- The cursor goes over the tokens of the tape.  At the end of the source it stays, and behind
the last token of a broken tape it meets the fault. -/
def Shows : Cursor → Tape → Prop
  | cursor, .ended place _ => cursor.StandsOn .eof place ∧ cursor.next = (.ok .eof, cursor)
  | cursor, .broken token place fault =>
    cursor.StandsOn token place ∧ cursor.next.1 = .error fault
  | cursor, .more token place rest =>
    cursor.StandsOn token place ∧ ∃ found, cursor.next.1 = .ok found ∧ cursor.next.2.Shows rest

variable {cursor : Cursor} {tape : Tape}

theorem Shows.standsOn (h : cursor.Shows tape) : cursor.StandsOn tape.current tape.place := by
  cases tape with
  | ended | broken | more => exact h.1

theorem Shows.token_eq (h : cursor.Shows tape) : cursor.current.token = tape.current :=
  congrArg Located.token h.standsOn.current

theorem Shows.line_eq (h : cursor.Shows tape) : cursor.current.line = tape.place.line :=
  congrArg Located.line h.standsOn.current

end Cursor

/-! ## Clocked readers -/

/-- Why a clocked reader stops. -/
inductive Halt
  /-- The text is refused. -/
  | refused (refusal : Tape.Refusal)
  /-- The turns are used up. -/
  | late

/-- Reading off a cursor, in a limited number of turns. -/
abbrev Clocked (α : Type) : Type :=
  EStateM Halt Cursor α

namespace Clocked

variable {α β : Type}

/-- Gives up. -/
def late : Clocked α :=
  fun cursor => .error .late cursor

/-- The current token. -/
def current : Clocked Token :=
  fun cursor => .ok cursor.current.token cursor

/-- How many tokens come before the current one. -/
def index : Clocked Nat :=
  fun cursor => .ok cursor.passed.length cursor

/-- Refuses the current token. -/
def refuse (cause : SourceCause) : Clocked α :=
  fun cursor => .error (.refused ⟨⟨cause, cursor.current.line⟩, cursor.passed.length⟩) cursor

/-- Moves on, whatever the current token is, and gives the token that was current. -/
def advance : Clocked Token :=
  fun cursor =>
    match cursor.next with
    | (.ok _, moved) => .ok cursor.current.token moved
    | (.error fault, moved) => .error (.refused ⟨fault, cursor.passed.length⟩) moved

/-- Moves on if the current token is of a kind. -/
def expectKind (kind : Kind) : Clocked Token := do
  let token ← current
  if token.kind = kind then advance else refuse (.mismatch (.anyOf kind) token)

/-- Moves on if the current token is an identifier, and gives its name. -/
def expectName : Clocked String := do
  match ← current with
  | .identifier name =>
    let _ ← advance
    return name
  | other => refuse (.mismatch (.anyOf .identifier) other)

/-- Moves on if the current token is a given symbol. -/
def expectSymbol (character : Char) : Clocked Token := do
  match ← current with
  | .symbol found =>
    if found = character then advance
    else refuse (.mismatch (.exactly (.ofSymbol character)) (.symbol found))
  | other => refuse (.mismatch (.anyOf .symbol) other)

/-! ## Agreement -/

open Tape (Step Reading Refusal)

/-- The reader came to what the reading came to. -/
inductive Same {bound : Nat} : EStateM.Result Halt Cursor α → Reading α bound → Prop
  | ok (step : Step α bound) {cursor : Cursor} (h : cursor.Shows step.rest) :
      Same (.ok step.value cursor) (.ok step)
  | error (refusal : Refusal) (cursor : Cursor) :
      Same (.error (.refused refusal) cursor) (.error refusal)

/-- On every cursor that shows the tape, the reader comes to what the reading comes to. -/
def Agrees (tape : Tape) {bound : Nat} (reader : Clocked α) (reading : Reading α bound) : Prop :=
  ∀ cursor : Cursor, cursor.Shows tape → Same (reader cursor) reading

variable {tape rest : Tape} {bound larger : Nat} {reader : Clocked α} {next : α → Clocked β}
  {reading : Reading α bound} {value : α}

theorem Agrees.pure (h : tape.length < bound) :
    Agrees tape (Pure.pure value) (.ok ⟨value, tape, h⟩) :=
  fun _ hshows => .ok ⟨value, tape, h⟩ hshows

theorem agrees_refuse (cause : SourceCause) :
    Agrees tape (refuse cause) (tape.refuse cause : Reading α bound) := by
  intro cursor hshows
  unfold refuse Tape.refuse
  rw [hshows.line_eq, hshows.standsOn.index]
  exact .error _ _

/-- Readers agree in sequence if each of them does. -/
theorem Agrees.bind {later : Step α bound → Reading β larger} (h : Agrees tape reader reading)
    (hnext : ∀ step, Agrees step.rest (next step.value) (later step)) :
    Agrees tape (reader >>= next) (reading >>= later) := by
  intro cursor hshows
  have hsame := h cursor hshows
  change Same (EStateM.bind reader next cursor) (Except.bind reading later)
  unfold EStateM.bind Except.bind
  generalize reader cursor = result at hsame ⊢
  cases hsame with
  | ok step hrest => exact hnext step _ hrest
  | error refusal after => exact .error refusal after

/-- The current token is the one of the tape. -/
theorem Agrees.current {next : Token → Clocked β} {reading : Reading β bound}
    (h : Agrees tape (next tape.current) reading) :
    Agrees tape (Clocked.current >>= next) reading := by
  intro cursor hshows
  change Same (next cursor.current.token cursor) reading
  rw [hshows.token_eq]
  exact h cursor hshows

/-- The place of the current token is the one of the tape. -/
theorem Agrees.index {next : Nat → Clocked β} {reading : Reading β bound}
    (h : Agrees tape (next tape.place.index) reading) :
    Agrees tape (Clocked.index >>= next) reading := by
  intro cursor hshows
  change Same (next cursor.passed.length cursor) reading
  rw [hshows.standsOn.index]
  exact h cursor hshows

/-- Another bound makes no difference. -/
theorem Agrees.widen (h : Agrees tape reader reading) {hle : Step α bound → bound ≤ larger} :
    Agrees tape reader (reading >>= fun step => Pure.pure (step.widen (hle step))) := by
  rw [← bind_pure reader]
  refine h.bind fun step => ?_
  exact .pure _

/-- Moving on agrees where the source has not ended. -/
theorem agrees_advance (h : tape.current ≠ .eof) : Agrees tape advance tape.advance := by
  intro cursor hshows
  have hindex := hshows.standsOn.index
  have htoken := hshows.token_eq
  unfold advance
  cases tape with
  | ended => exact absurd rfl h
  | broken token place fault =>
      obtain ⟨-, hfault⟩ := hshows
      generalize cursor.next = moved at hfault ⊢
      obtain ⟨result, moved⟩ := moved
      dsimp only at hfault
      subst hfault
      rw [hindex]
      exact .error _ _
  | more token place rest =>
      obtain ⟨-, found, hfound, hrest⟩ := hshows
      generalize cursor.next = moved at hfound hrest ⊢
      obtain ⟨result, moved⟩ := moved
      dsimp only at hfound hrest
      subst hfound
      rw [htoken]
      exact .ok ⟨token, rest, Nat.lt_succ_self _⟩ hrest

/-- Readers agree where both of them go the same way and agree there. -/
theorem Agrees.ite {condition : Prop} [Decidable condition] {other : Clocked α}
    {otherReading : Reading α bound} (hthen : condition → Agrees tape reader reading)
    (helse : ¬ condition → Agrees tape other otherReading) :
    Agrees tape (if condition then reader else other)
      (if condition then reading else otherReading) := by
  split
  · next h => exact hthen h
  · next h => exact helse h

/-- Moving on past a token and giving a value for it. -/
theorem agrees_take (h : tape.current ≠ .eof) :
    Agrees tape (do let _ ← advance; return value)
      (tape.advance >>= fun step => Pure.pure (step.map fun _ => value)) := by
  refine (agrees_advance h).bind fun step => ?_
  exact .pure _

theorem agrees_expectKind {kind : Kind} (h : kind ≠ .layout .eof) :
    Agrees tape (expectKind kind) (tape.expectKind kind) := by
  refine .current (.ite (fun hkind => agrees_advance fun heof => h ?_) fun _ => agrees_refuse _)
  rw [← hkind, heof]
  rfl

theorem agrees_expectName : Agrees tape expectName tape.expectName := by
  refine .current ?_
  unfold Tape.expectName
  cases hcurrent : tape.current with
  | identifier name => exact agrees_take (hcurrent ▸ nofun)
  | _ => exact agrees_refuse _

theorem agrees_expectSymbol {character : Char} :
    Agrees tape (expectSymbol character) (tape.expectSymbol character) := by
  refine .current ?_
  unfold Tape.expectSymbol
  cases hcurrent : tape.current with
  | symbol found =>
      exact .ite (fun _ => agrees_advance (hcurrent ▸ nofun)) fun _ => agrees_refuse _
  | _ => exact agrees_refuse _

end Clocked

end Offside
