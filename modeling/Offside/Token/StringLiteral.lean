/-!
# String literals

A string literal runs from its opening quote to the next quote of the same kind
that no backslash escapes.  A backslash and the character after it stand for one
character: `n`, `t` and `r` for line feed, tab and carriage return, every other
character for itself.  All else, line feeds included, stands for itself.

`read` takes the text after the opening quote.  `readFrom_eq` removes its
accumulators, and `length_rest_lt` says that a literal takes up room.
-/

namespace Offside.StringLiteral

/-- The character that a backslash and a given character stand for. -/
def unescape : Char → Char
  | 'n' => '\n'
  | 't' => '\t'
  | 'r' => '\r'
  | character => character

/-- A literal that was read. -/
structure Literal where
  /-- The characters that the literal stands for. -/
  text : List Char
  /-- How many line feeds the literal runs over. -/
  breaks : Nat
  /-- What follows the closing quote. -/
  rest : List Char
deriving DecidableEq, Repr

/-- One if the character ends a line. -/
def lineBreak (character : Char) : Nat :=
  if character = '\n' then 1 else 0

/-- Reads on after `taken`, which is kept in reverse, and `breaks` line feeds. -/
def readFrom (quote : Char) (taken : List Char) (breaks : Nat) : List Char → Option Literal
  | [] => none
  | character :: rest =>
    if character = quote then some ⟨taken.reverse, breaks, rest⟩
    else if character = '\\' then
      match rest with
      | [] => none
      | escaped :: after =>
        readFrom quote (unescape escaped :: taken) (breaks + lineBreak escaped) after
    else readFrom quote (character :: taken) (breaks + lineBreak character) rest

/-- Reads a literal after its opening quote; there is none if it is not closed. -/
def read (quote : Char) (source : List Char) : Option Literal :=
  readFrom quote [] 0 source

/-- What was taken before comes first, and what follows is read as on its own. -/
theorem readFrom_eq (quote : Char) (taken : List Char) (breaks : Nat) (source : List Char) :
    readFrom quote taken breaks source =
      (read quote source).map fun literal =>
        ⟨taken.reverse ++ literal.text, breaks + literal.breaks, literal.rest⟩ := by
  unfold read
  suffices general : ∀ (taken more : List Char) (breaks count : Nat),
      readFrom quote (more ++ taken) (breaks + count) source =
        (readFrom quote more count source).map fun literal =>
          ⟨taken.reverse ++ literal.text, breaks + literal.breaks, literal.rest⟩ by
    simpa using general taken [] breaks 0
  intro taken more breaks count
  fun_induction readFrom quote more count source with
  | case1 => rfl
  | case2 more count rest => rw [readFrom.eq_def]; simp
  | case3 more count hquote => rw [readFrom.eq_def]; simp [hquote]
  | case4 more count escaped after hquote ih =>
    rw [readFrom.eq_def]
    simpa [hquote, Nat.add_assoc] using ih
  | case5 more count character rest hquote hescape ih =>
    rw [readFrom.eq_def]
    simpa [hquote, hescape, Nat.add_assoc] using ih

theorem length_rest_lt_of_readFrom {quote : Char} {taken : List Char} {breaks : Nat}
    {source : List Char} {literal : Literal}
    (h : readFrom quote taken breaks source = some literal) :
    literal.rest.length < source.length := by
  fun_induction readFrom quote taken breaks source with
  | case1 => cases h
  | case2 => cases h; simp
  | case3 => cases h
  | case4 taken breaks escaped after hquote ih =>
    have := ih h
    simp only [List.length_cons]
    omega
  | case5 taken breaks character rest hquote hescape ih =>
    have := ih h
    simp only [List.length_cons]
    omega

/-- The rest after a literal is shorter than the text it was read from. -/
theorem length_rest_lt {quote : Char} {source : List Char} {literal : Literal}
    (h : read quote source = some literal) : literal.rest.length < source.length :=
  length_rest_lt_of_readFrom h

end Offside.StringLiteral
