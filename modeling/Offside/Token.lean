/-!
# Tokens

The words of the language after scanning.  A token is one of seven things: a
number, an identifier, a one-character symbol, a string, a keyword, a
two-character comparison operator, or a layout mark.  Only the first four carry
a payload.

Layout marks are what the offside rule turns blanks and line ends into: `newline`
ends a logical line, `indent` and `dedent` open and close a block, `eof` ends
the stream.

`Kind` is the type of a token without its payload; `Token.kind` forgets the
payload, and `Kind.carriesPayload_kind` says which kinds had one.
-/

namespace Offside

/-- The reserved words. -/
inductive Keyword
  | classWord
  | returnWord
  | ifWord
  | elseWord
  | defWord
  | printWord
  | andWord
  | orWord
  | notWord
  | noneWord
  | trueWord
  | falseWord
deriving DecidableEq, Repr, Inhabited

/-- The comparison operators of two characters. -/
inductive Operator
  | equal
  | notEqual
  | lessOrEqual
  | greaterOrEqual
deriving DecidableEq, Repr, Inhabited

/-- The marks that stand for line ends, block ends and the end of the source. -/
inductive Layout
  | newline
  | indent
  | dedent
  | eof
deriving DecidableEq, Repr, Inhabited

/-- What a token is, payload aside. -/
inductive Kind
  | number
  | identifier
  | symbol
  | string
  | keyword (word : Keyword)
  | operator (operator : Operator)
  | layout (mark : Layout)
deriving DecidableEq, Repr, Inhabited

/-- A token as the scanner delivers it. -/
inductive Token
  | number (value : Nat)
  | identifier (name : String)
  | symbol (character : Char)
  | string (content : String)
  | keyword (word : Keyword)
  | operator (operator : Operator)
  | layout (mark : Layout)
deriving DecidableEq, Repr, Inhabited

/-! ## Spelling -/

namespace Keyword

/-- The reserved words in the order of their declaration. -/
def all : List Keyword :=
  [classWord, returnWord, ifWord, elseWord, defWord, printWord, andWord, orWord, notWord,
    noneWord, trueWord, falseWord]

/-- How a source text spells the word. -/
def spelling : Keyword → String
  | classWord => "class"
  | returnWord => "return"
  | ifWord => "if"
  | elseWord => "else"
  | defWord => "def"
  | printWord => "print"
  | andWord => "and"
  | orWord => "or"
  | notWord => "not"
  | noneWord => "None"
  | trueWord => "True"
  | falseWord => "False"

/-- The reserved word with a given spelling. -/
def ofSpelling? (text : String) : Option Keyword :=
  all.find? fun word => word.spelling == text

/-- The name of the word in messages. -/
def label : Keyword → String
  | classWord => "Class"
  | returnWord => "Return"
  | ifWord => "If"
  | elseWord => "Else"
  | defWord => "Def"
  | printWord => "Print"
  | andWord => "And"
  | orWord => "Or"
  | notWord => "Not"
  | noneWord => "None"
  | trueWord => "True"
  | falseWord => "False"

end Keyword

namespace Operator

/-- The character that, followed by an equals sign, spells the operator. -/
def lead : Operator → Char
  | equal => '='
  | notEqual => '!'
  | lessOrEqual => '<'
  | greaterOrEqual => '>'

/-- The operator that begins with a given character. -/
def ofLead? : Char → Option Operator
  | '=' => some equal
  | '!' => some notEqual
  | '<' => some lessOrEqual
  | '>' => some greaterOrEqual
  | _ => none

@[simp] theorem ofLead?_lead (operator : Operator) : ofLead? operator.lead = some operator := by
  cases operator <;> rfl

theorem ofLead?_eq_some {character : Char} {operator : Operator}
    (h : ofLead? character = some operator) : character = operator.lead := by
  unfold ofLead? at h
  split at h <;> cases h <;> rfl

/-- The name of the operator in messages. -/
def label : Operator → String
  | equal => "Eq"
  | notEqual => "NotEq"
  | lessOrEqual => "LessOrEq"
  | greaterOrEqual => "GreaterOrEq"

/-- The name of the operator in a field-by-field rendering. -/
def fieldName : Operator → String
  | equal => "EQ"
  | notEqual => "NOT_EQ"
  | lessOrEqual => "LESS_OR_EQ"
  | greaterOrEqual => "GREATER_OR_EQ"

end Operator

namespace Layout

/-- The name of the mark in messages. -/
def label : Layout → String
  | newline => "Newline"
  | indent => "Indent"
  | dedent => "Dedent"
  | eof => "Eof"

end Layout

namespace Kind

/-- The name of the kind in messages. -/
def label : Kind → String
  | number => "Number"
  | identifier => "Id"
  | symbol => "Char"
  | string => "String"
  | keyword word => word.label
  | operator op => op.label
  | layout mark => mark.label

/-- The name of the kind in a field-by-field rendering: the label in capitals,
its words joined by underscores. -/
def fieldName : Kind → String
  | operator op => op.fieldName
  | kind => kind.label.toUpper

/-- The kinds in the order of their declaration. -/
def all : List Kind :=
  [number, identifier, symbol, string] ++ Keyword.all.map keyword ++
    [operator .equal, operator .notEqual, operator .lessOrEqual, operator .greaterOrEqual] ++
    [layout .newline, layout .indent, layout .dedent, layout .eof]

/-- The kind with a given label. -/
def ofLabel? (text : String) : Option Kind :=
  all.find? fun kind => kind.label == text

/-- Numbers, identifiers, symbols and strings carry a payload. -/
def carriesPayload : Kind → Bool
  | number | identifier | symbol | string => true
  | keyword _ | operator _ | layout _ => false

end Kind

namespace Token

/-- Forgets the payload. -/
def kind : Token → Kind
  | number _ => .number
  | identifier _ => .identifier
  | symbol _ => .symbol
  | string _ => .string
  | keyword word => .keyword word
  | operator op => .operator op
  | layout mark => .layout mark

/-- Layout marks are the tokens that no characters of a line spell. -/
def isLayout : Token → Bool
  | layout _ => true
  | _ => false

/-- The end of a logical line. -/
abbrev newline : Token := layout .newline

/-- The start of a block. -/
abbrev indent : Token := layout .indent

/-- The end of a block. -/
abbrev dedent : Token := layout .dedent

/-- The end of the source. -/
abbrev eof : Token := layout .eof

/-- A label with a payload in braces. -/
def braced (label payload : String) : String :=
  label ++ "\x7b" ++ payload ++ "\x7d"

/-- The text of a token in messages: its label, with the payload in braces where
there is one.  A scanned number is short enough to be written in full. -/
def text : Token → String
  | number value => braced "Number" (toString value)
  | identifier name => braced "Id" name
  | symbol character => braced "Char" character.toString
  | string content => braced "String" content
  | keyword word => word.label
  | operator op => op.label
  | layout mark => mark.label

end Token

end Offside
