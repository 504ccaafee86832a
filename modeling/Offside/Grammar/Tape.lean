import Offside.Token.Scanner

/-!
# Tapes

A tape is what a parser reads: the tokens of a text from some place on.  It holds
at least one token, the current one, and it ends in one of two ways: with the
end of the source, or with a token behind which the scanner meets a fault.

`Tape.ofString` lays the whole stream of a text out, and `Tape.tokens` lists it.
The fault at the end of a broken tape is met by whoever moves past its last
token, so reading a tape and reading a cursor give the same.
-/

namespace Offside

/-- Where a token stands. -/
structure Place where
  /-- Its line, counted from one. -/
  line : Nat
  /-- How many tokens come before it. -/
  index : Nat
deriving DecidableEq, Repr, Inhabited

/-- The tokens of a text from some place on. -/
inductive Tape
  /-- Only the end of the source is left.  The batch that ends the stream began
  after so many tokens. -/
  | ended (place : Place) (beforeLast : Nat)
  /-- One token is left, and behind it a fault. -/
  | broken (token : Token) (place : Place) (fault : SourceFault)
  /-- A token, and more behind it. -/
  | more (token : Token) (place : Place) (rest : Tape)
deriving Repr

namespace Tape

/-- The current token. -/
def current : Tape → Token
  | ended _ _ => .eof
  | broken token _ _ | more token _ _ => token

/-- The place of the current token. -/
def place : Tape → Place
  | ended place _ | broken _ place _ | more _ place _ => place

/-- How many tokens come after the current one. -/
def length : Tape → Nat
  | ended _ _ | broken _ _ _ => 0
  | more _ _ rest => rest.length + 1

/-- The tokens from the current one on. -/
def tokens : Tape → List Located
  | ended place _ => [⟨.eof, place.line⟩]
  | broken token place _ => [⟨token, place.line⟩]
  | more token place rest => ⟨token, place.line⟩ :: rest.tokens

/-- A tape holds the current token and those after it. -/
@[simp] theorem length_tokens (tape : Tape) : tape.tokens.length = tape.length + 1 := by
  induction tape with
  | ended => rfl
  | broken => rfl
  | more token place rest ih => simp [tokens, length, ih]

/-- The fault behind the last token, if there is one. -/
def fault? : Tape → Option SourceFault
  | ended _ _ => none
  | broken _ _ fault => some fault
  | more _ _ rest => rest.fault?

/-- The place of the end of the source and the number of tokens before the batch
that ends the stream, if there is no fault. -/
def ending? : Tape → Option (Place × Nat)
  | ended place beforeLast => some (place, beforeLast)
  | broken _ _ _ => none
  | more _ _ rest => rest.ending?

/-! ## Laying out a text -/

/-- Lays tokens, the last of them first, before a tape; `index` is the number of
tokens that come before the tape. -/
def layBefore (rest : Tape) (index : Nat) : List Located → Tape
  | [] => rest
  | last :: earlier =>
    layBefore (more last.token ⟨last.line, index - 1⟩ rest) (index - 1) earlier

/-- Lays out the tokens that a scanner goes on to deliver behind `taken`, which is
kept in reverse and holds `index` tokens.  There is no tape if a fault comes before
the first token. -/
def layFrom (taken : List Located) (index : Nat) (scanner : Scanner) :
    Except SourceFault Tape :=
  match h : scanner.load with
  | .batch first following next =>
    have : next.measure < scanner.measure := Scanner.measure_lt_of_load h
    layFrom (following.reverse ++ first :: taken) (index + 1 + following.length) next
  | .last closing line =>
    let before := closing.reverse ++ taken
    let count := index + closing.length
    .ok (layBefore (ended ⟨line, count⟩ index) count before)
  | .fault fault _ =>
    match taken with
    | [] => .error fault
    | last :: earlier =>
      .ok (layBefore (broken last.token ⟨last.line, index - 1⟩ fault) (index - 1) earlier)
termination_by scanner.measure

/-- The tape of a scanner. -/
def ofScanner (scanner : Scanner) : Except SourceFault Tape :=
  layFrom [] 0 scanner

/-- The tape of a text. -/
def ofString (text : String) : Except SourceFault Tape :=
  ofScanner (.ofString text)

/-! ## Moving on -/

/-- Why reading stopped. -/
structure Refusal where
  /-- What is wrong. -/
  fault : SourceFault
  /-- How many tokens come before the current one. -/
  reached : Nat
deriving DecidableEq, Repr

/-- Something that was read off a tape, and a rest that is shorter than a bound. -/
structure Step (α : Type) (bound : Nat) where
  /-- What was read. -/
  value : α
  /-- The tape behind it. -/
  rest : Tape
  /-- Reading takes up tokens. -/
  shorter : rest.length < bound

/-- What reading off a tape comes to. -/
abbrev Reading (α : Type) (bound : Nat) : Type :=
  Except Refusal (Step α bound)

namespace Step

variable {α β : Type} {bound larger : Nat}

/-- A step that takes up nothing. -/
@[inline] def stay (value : α) (tape : Tape) : Step α (tape.length + 1) :=
  ⟨value, tape, Nat.lt_succ_self _⟩

/-- A step takes up one token at least of those that its bound counts. -/
theorem succ_le (step : Step α bound) : step.rest.length + 1 ≤ bound :=
  step.shorter

/-- The same step under a larger bound. -/
@[inline] def widen (step : Step α bound) (h : bound ≤ larger) : Step α larger :=
  ⟨step.value, step.rest, Nat.lt_of_lt_of_le step.shorter h⟩

/-- The same step with another value. -/
@[inline] def map (step : Step α bound) (f : α → β) : Step β bound :=
  ⟨f step.value, step.rest, step.shorter⟩

end Step

/-- Refuses the current token. -/
def refuse {α : Type} (tape : Tape) (cause : SourceCause) : Except Refusal α :=
  .error ⟨⟨cause, tape.place.line⟩, tape.place.index⟩

/-- Moves past the current token.  Nobody moves past the end of the source. -/
def advance (tape : Tape) : Reading Token tape.length :=
  match tape with
  | ended place _ => .error ⟨⟨.unexpectedToken .eof, place.line⟩, place.index⟩
  | broken _ place fault => .error ⟨fault, place.index⟩
  | more token _ rest => .ok ⟨token, rest, Nat.lt_succ_self _⟩

/-- Moves past the current token if it is of a kind. -/
def expectKind (tape : Tape) (kind : Kind) : Reading Token tape.length :=
  if tape.current.kind = kind then tape.advance
  else tape.refuse (.mismatch (.anyOf kind) tape.current)

/-- Moves past the current token if it is an identifier, and gives its name. -/
def expectName (tape : Tape) : Reading String tape.length :=
  match tape.current with
  | .identifier name => return (← tape.advance).map fun _ => name
  | other => tape.refuse (.mismatch (.anyOf .identifier) other)

/-- Moves past the current token if it is a given symbol. -/
def expectSymbol (tape : Tape) (character : Char) : Reading Token tape.length :=
  match tape.current with
  | .symbol found =>
    if found = character then tape.advance
    else tape.refuse (.mismatch (.exactly (.ofSymbol character)) (.symbol found))
  | other => tape.refuse (.mismatch (.anyOf .symbol) other)

end Tape

end Offside
