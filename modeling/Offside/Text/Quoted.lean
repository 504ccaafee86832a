import Offside.Text.Printable

/-!
# Quoted text

The form in which a text is shown inside a message: between quotes, on one line,
with every hidden character spelled out.  Single quotes are used unless the text
holds a single quote and no double quote.

A backslash, the quote in use, and line feed, carriage return and tab are
written as a backslash and one character; any other hidden character as its code
in two, four or eight hexadecimal digits, whichever is the shortest that fits.
-/

namespace Offside.Quoted

/-- The code of a character in lower-case hexadecimal, padded to a width. -/
def hexadecimal (width code : Nat) : List Char :=
  let digits := Nat.toDigits 16 code
  List.replicate (width - digits.length) '0' ++ digits

/-- How one character is written between quotes of a given kind. -/
def escape (quote character : Char) : List Char :=
  if character = quote ∨ character = '\\' then ['\\', character]
  else if character = '\n' then ['\\', 'n']
  else if character = '\r' then ['\\', 'r']
  else if character = '\t' then ['\\', 't']
  else if Printable.isPrintable character then [character]
  else if character.toNat < 0x100 then ['\\', 'x'] ++ hexadecimal 2 character.toNat
  else if character.toNat < 0x10000 then ['\\', 'u'] ++ hexadecimal 4 character.toNat
  else ['\\', 'U'] ++ hexadecimal 8 character.toNat

/-- The quote in use for a text. -/
def quoteFor (characters : List Char) : Char :=
  if '\'' ∈ characters ∧ '"' ∉ characters then '"' else '\''

/-- The quoted form of a text. -/
def ofChars (characters : List Char) : String :=
  let quote := quoteFor characters
  String.ofList (quote :: characters.flatMap (escape quote) ++ [quote])

/-- The quoted form of a text. -/
def ofString (text : String) : String :=
  ofChars text.toList

/-- The quoted form of one character. -/
def ofChar (character : Char) : String :=
  ofChars [character]

end Offside.Quoted
