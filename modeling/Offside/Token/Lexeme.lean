import Offside.Token
import Offside.Token.StringLiteral
import Offside.Text.Decimal

/-!
# Lexemes

`Lexeme.read` takes the longest lexeme off the front of a text: a run of digits,
a string literal, an operator or symbol, or a word.  It knows nothing of blanks,
lines or blocks.  Digits and letters are those of ASCII.

`length_rest_lt_of_read` is what makes scanning end: a token takes up room.
-/

namespace Offside.Lexeme

/-- The symbols that stand alone. -/
def soloSymbols : List Char := ['.', ',', ':', '(', ')', '+', '-', '*', '/']

/-- The characters a word may begin with. -/
def isWordStart (character : Char) : Bool :=
  character == '_' || character.isAlpha

/-- The characters a word may go on with. -/
def isWordPart (character : Char) : Bool :=
  isWordStart character || character.isDigit

/-- The characters that quote a string literal. -/
def isQuote (character : Char) : Bool :=
  character == '\'' || character == '"'

/-- What stands at the front of a text. -/
inductive Front
  /-- A token, the line feeds it runs over, and what follows it. -/
  | token (token : Token) (breaks : Nat) (rest : List Char)
  /-- A string literal that is not closed. -/
  | unclosed
  /-- A run of digits that is too long, and what follows it. -/
  | overlong (rest : List Char)
  /-- A character that begins no token. -/
  | stray
deriving DecidableEq, Repr

/-- The token that a word is: a keyword or an identifier. -/
def ofWord (word : String) : Token :=
  match Keyword.ofSpelling? word with
  | some keyword => .keyword keyword
  | none => .identifier word

/-- The longest lexeme at the front of a text that begins with a given character. -/
def read (first : Char) (rest : List Char) : Front :=
  if first.isDigit then
    let after := rest.dropWhile Char.isDigit
    match Decimal.read? (first :: rest.takeWhile Char.isDigit) with
    | some value => .token (.number value) 0 after
    | none => .overlong after
  else if isQuote first then
    match StringLiteral.read first rest with
    | some literal => .token (.string (String.ofList literal.text)) literal.breaks literal.rest
    | none => .unclosed
  else
    match Operator.ofLead? first with
    | some operator =>
      match rest with
      | '=' :: after => .token (.operator operator) 0 after
      | _ => .token (.symbol first) 0 rest
    | none =>
      if soloSymbols.contains first then .token (.symbol first) 0 rest
      else if isWordStart first then
        .token (ofWord (String.ofList (first :: rest.takeWhile isWordPart))) 0
          (rest.dropWhile isWordPart)
      else .stray

private theorem length_dropWhile_le (keep : Char → Bool) (text : List Char) :
    (text.dropWhile keep).length ≤ text.length :=
  (List.dropWhile_sublist keep).length_le

/-- A token takes up room. -/
theorem length_rest_lt_of_read {first : Char} {text : List Char} {token : Token}
    {breaks : Nat} {rest : List Char} (h : read first text = .token token breaks rest) :
    rest.length < (first :: text).length := by
  simp only [List.length_cons]
  unfold read at h
  split at h
  · dsimp only at h
    split at h
    · cases h
      exact Nat.lt_succ_of_le (length_dropWhile_le _ _)
    · cases h
  · split at h
    · split at h
      · rename_i literal hliteral
        cases h
        exact Nat.lt_succ_of_lt (StringLiteral.length_rest_lt hliteral)
      · cases h
    · split at h
      · split at h
        · cases h
          simp only [List.length_cons]
          omega
        · cases h
          omega
      · split at h
        · cases h
          omega
        · split at h
          · cases h
            exact Nat.lt_succ_of_le (length_dropWhile_le _ _)
          · cases h

/-- A token that was read off a text is no layout mark. -/
theorem isLayout_of_read {first : Char} {text : List Char} {token : Token}
    {breaks : Nat} {rest : List Char} (h : read first text = .token token breaks rest) :
    token.isLayout = false := by
  unfold read at h
  split at h
  · dsimp only at h
    split at h <;> cases h
    rfl
  · split at h
    · split at h <;> cases h
      rfl
    · split at h
      · split at h <;> cases h <;> rfl
      · split at h
        · cases h
          rfl
        · split at h
          · cases h
            unfold ofWord
            split <;> rfl
          · cases h

end Offside.Lexeme
