import Offside.Token.Form

/-!
# Faults of a source text

Everything that can be wrong with a source before it runs, by cause.  A fault
names its line.  Faults of the scanner and tokens that are not the expected ones
are lexical, the rest is grammatical.
-/

namespace Offside

/-- The token that was expected: any of a kind, or one particular token. -/
inductive Wanted
  | anyOf (kind : Kind)
  | exactly (form : Form)
deriving DecidableEq, Repr

/-- How a message names the expected token. -/
def Wanted.text : Wanted → String
  | anyOf kind => kind.label
  | exactly form => form.text

/-- What can be wrong with a source. -/
inductive SourceCause
  | unexpectedCharacter (character : Char)
  | overlongNumber
  | mismatch (wanted : Wanted) (found : Token)
  | unexpectedToken (found : Token)
  | unclosedBlock
  | returnOutsideMethod
  | undefinedBase (name : String)
  | notClass (name : String)
  | wrongStrArity
deriving DecidableEq, Repr

namespace SourceCause

/-- Faults that concern single tokens. -/
def isLexical : SourceCause → Bool
  | unexpectedCharacter _ | overlongNumber | mismatch _ _ => true
  | unexpectedToken _ | unclosedBlock | returnOutsideMethod | undefinedBase _ | notClass _
  | wrongStrArity => false

/-- The message of a cause, without the line. -/
def text : SourceCause → String
  | unexpectedCharacter character => "unexpected character " ++ Quoted.ofChar character
  | overlongNumber => "number literal too long"
  | mismatch wanted found => "expected " ++ wanted.text ++ ", got " ++ found.text
  | unexpectedToken found => "unexpected token " ++ found.text
  | unclosedBlock => "unexpected end of input inside a block"
  | returnOutsideMethod => "'return' outside method"
  | undefinedBase name => "base class '" ++ name ++ "' is not defined"
  | notClass name => "'" ++ name ++ "' is not a class"
  | wrongStrArity => "str() takes exactly one argument"

end SourceCause

/-- A fault of a source text. -/
structure SourceFault where
  /-- What is wrong. -/
  cause : SourceCause
  /-- The line where it is wrong, counted from one. -/
  line : Nat
deriving DecidableEq, Repr

namespace SourceFault

/-- The message of a fault: its cause, then its line in parentheses. -/
def message (fault : SourceFault) : String :=
  fault.cause.text ++ " (line " ++ toString fault.line ++ ")"

/-- The family that a fault belongs to. -/
def family (fault : SourceFault) : String :=
  if fault.cause.isLexical then "LexerError" else "ParseError"

theorem family_of_isLexical {fault : SourceFault} (h : fault.cause.isLexical = true) :
    fault.family = "LexerError" :=
  if_pos h

theorem family_of_not_isLexical {fault : SourceFault} (h : fault.cause.isLexical = false) :
    fault.family = "ParseError" :=
  if_neg (by simp [h])

theorem family_cases (fault : SourceFault) :
    fault.family = "LexerError" ∨ fault.family = "ParseError" := by
  unfold family
  split
  · exact .inl rfl
  · exact .inr rfl

end SourceFault

end Offside
