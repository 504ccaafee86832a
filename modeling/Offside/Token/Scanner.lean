import Offside.Token.Lexeme
import Offside.SourceFault

/-!
# The scanner

The scanner turns a text into tokens a batch at a time.  A batch is one token,
or the layout marks of one change of margin, or the marks that end the stream.

Between lexemes stand blanks, carriage returns and comments; `skip` passes over
them and counts the blanks directly before what comes next.  At the start of a
logical line that count, two blanks to a level, is the depth of the line
(`Scanner.indentWidth`); a line that is deeper or shallower than the one before
is led by as many `indent`s or `dedent`s.  Line feeds at the start of a line are
passed over as well, so empty lines leave no trace.

The batch that ends the stream closes the current line and every open block; the
end of the source follows it.

A scanner that meets a fault has still moved: the blanks before the fault, and the
digits of a number that is too long, are behind it.  `Load.fault` carries that
scanner, and a caller may go on with it.

`measure_lt_of_load` says that every batch but the last makes the scanner
smaller, which is why reading a whole text ends.
-/

namespace Offside

/-- A token and the line where it stands. -/
structure Located where
  /-- The token. -/
  token : Token
  /-- Its line, counted from one. -/
  line : Nat
deriving DecidableEq, Repr, Inhabited

/-! ## What stands between lexemes -/

/-- The place where the next lexeme begins. -/
structure Gap where
  /-- The blanks directly before that place. -/
  blanks : Nat
  /-- The line of that place. -/
  line : Nat
  /-- The text from there on. -/
  rest : List Char
deriving DecidableEq, Repr

/-- Passes over blanks, carriage returns and comments, and at the start of a
line over line feeds too. -/
def Gap.skip (lineStart inComment : Bool) (blanks line : Nat) : List Char → Gap
  | [] => ⟨blanks, line, []⟩
  | character :: rest =>
    if character = '\n' then
      if lineStart then skip lineStart false 0 (line + 1) rest
      else ⟨blanks, line, character :: rest⟩
    else if inComment then skip lineStart true 0 line rest
    else if character = ' ' then skip lineStart false (blanks + 1) line rest
    else if character = '\r' then skip lineStart false 0 line rest
    else if character = '#' then skip lineStart true 0 line rest
    else ⟨blanks, line, character :: rest⟩

theorem Gap.length_rest_skip_le (lineStart inComment : Bool) (blanks line : Nat)
    (text : List Char) :
    (Gap.skip lineStart inComment blanks line text).rest.length ≤ text.length := by
  fun_induction Gap.skip lineStart inComment blanks line text <;>
    simp only [List.length_cons, List.length_nil, Nat.le_refl] <;> omega

/-! ## Loading a batch -/

/-- What the scanner knows between two batches. -/
structure Scanner where
  /-- The text that is still to be read. -/
  rest : List Char
  /-- The line where it begins. -/
  line : Nat
  /-- How many blocks are open. -/
  depth : Nat
  /-- Whether the next token begins a logical line. -/
  lineStart : Bool
deriving DecidableEq, Repr

/-- What loading a batch gives. -/
inductive Load
  /-- Tokens, and the scanner after them. -/
  | batch (first : Located) (more : List Located) (next : Scanner)
  /-- The marks that close what is open, and the line where the source ends. -/
  | last (closing : List Located) (line : Nat)
  /-- A fault, and the scanner that goes on behind it. -/
  | fault (fault : SourceFault) (next : Scanner)
deriving Repr

namespace Scanner

/-- The number of blanks that make one level of depth. -/
def indentWidth : Nat := 2

/-- The scanner at the start of a text. -/
def ofChars (text : List Char) : Scanner :=
  ⟨text, 1, 0, true⟩

/-- The scanner at the start of a text. -/
def ofString (text : String) : Scanner :=
  ofChars text.toList

/-- What ends the stream: the end of the current line, if it has begun, the end of
every open block, and the end of the source. -/
def finish (depth : Nat) (lineStart : Bool) (line : Nat) : Load :=
  .last ((if lineStart then [] else [⟨.newline, line⟩]) ++ List.replicate depth ⟨.dedent, line⟩)
    line

/-- The scanner behind the end of a text. -/
def spent (line : Nat) : Scanner :=
  ⟨[], line, 0, false⟩

/-- The marks that lead a line of another depth. -/
def shift (depth target : Nat) (line : Nat) (rest : List Char) : Load :=
  let mark : Located := ⟨if depth < target then .indent else .dedent, line⟩
  let count := if depth < target then target - depth else depth - target
  .batch mark (List.replicate (count - 1) mark) ⟨rest, line, target, false⟩

/-- Loads the token that begins with a given character. -/
def loadLexeme (depth : Nat) (lineStart : Bool) (line : Nat) (first : Char)
    (rest : List Char) : Load :=
  match Lexeme.read first rest with
  | .token token breaks after => .batch ⟨token, line⟩ [] ⟨after, line + breaks, depth, false⟩
  | .unclosed => finish depth lineStart (line + rest.count '\n')
  | .overlong after => .fault ⟨.overlongNumber, line⟩ ⟨after, line, depth, lineStart⟩
  | .stray => .fault ⟨.unexpectedCharacter first, line⟩ ⟨first :: rest, line, depth, lineStart⟩

/-- Loads the next batch. -/
def load (scanner : Scanner) : Load :=
  let gap := Gap.skip scanner.lineStart false 0 scanner.line scanner.rest
  match gap.rest with
  | [] => finish scanner.depth scanner.lineStart gap.line
  | first :: rest =>
    if scanner.lineStart ∧ gap.blanks / indentWidth ≠ scanner.depth then
      shift scanner.depth (gap.blanks / indentWidth) gap.line (first :: rest)
    else if first = '\n' then
      .batch ⟨.newline, gap.line⟩ [] ⟨rest, gap.line + 1, scanner.depth, true⟩
    else loadLexeme scanner.depth scanner.lineStart gap.line first rest

/-! ## Loading makes progress -/

/-- Twice the characters left, and one more at the start of a line: a change of
margin takes no characters, but it can happen only once a line. -/
def measure (scanner : Scanner) : Nat :=
  2 * scanner.rest.length + scanner.lineStart.toNat

private theorem length_rest_of_loadLexeme {depth : Nat} {lineStart : Bool} {line : Nat}
    {character : Char} {rest : List Char} {first : Located} {more : List Located}
    {next : Scanner}
    (h : loadLexeme depth lineStart line character rest = .batch first more next) :
    next.rest.length < (character :: rest).length ∧ next.lineStart = false := by
  unfold loadLexeme at h
  split at h
  · rename_i hread
    cases h
    exact ⟨Lexeme.length_rest_lt_of_read hread, rfl⟩
  · cases h
  · cases h
  · cases h

/-- Every batch but the last makes the scanner smaller. -/
theorem measure_lt_of_load {scanner next : Scanner} {first : Located} {more : List Located}
    (h : scanner.load = .batch first more next) : next.measure < scanner.measure := by
  have hgap := Gap.length_rest_skip_le scanner.lineStart false 0 scanner.line scanner.rest
  unfold load at h
  dsimp only at h
  split at h
  · cases h
  · rename_i character rest hrest
    rw [hrest, List.length_cons] at hgap
    split at h
    · rename_i hshift
      cases h
      simp only [measure, List.length_cons, hshift.1, Bool.toNat_true, Bool.toNat_false]
      omega
    · split at h
      · cases h
        simp only [measure, Bool.toNat_true]
        omega
      · obtain ⟨hlength, hstart⟩ := length_rest_of_loadLexeme h
        simp only [List.length_cons] at hlength
        simp only [measure, hstart, Bool.toNat_false]
        omega

end Scanner

end Offside
