import Offside.Token
import Offside.Text.Decimal
import Offside.Text.Quoted

/-!
# Token forms

A form is a token put together by hand, from a kind and a payload of any type:
what a caller writes down to say which token it expects.  The only rule is that
a payload is there exactly if the kind carries one; `Form.make` enforces it and
`Form.fits` records it.

Payloads compare by value, and a flag counts as the number one or zero
(`Payload.agrees`).  Every scanned token has a form, `Form.ofToken`.
-/

namespace Offside

/-- A payload of any type. -/
inductive Payload
  | number (value : Int)
  | text (content : String)
  | flag (value : Bool)
deriving DecidableEq, Repr, Inhabited

namespace Payload

/-- The number that a payload counts as, if it counts as one. -/
def asNumber? : Payload → Option Int
  | number value => some value
  | flag value => some (if value then 1 else 0)
  | text _ => none

/-- Equality by value: texts with texts, numbers and flags with one another. -/
def agrees : Payload → Payload → Bool
  | text left, text right => left == right
  | text _, _ | _, text _ => false
  | left, right => left.asNumber? == right.asNumber?

@[simp] theorem agrees_refl (payload : Payload) : payload.agrees payload = true := by
  cases payload <;> simp [agrees]

theorem agrees_comm (left right : Payload) : left.agrees right = right.agrees left := by
  cases left <;> cases right <;> simp [agrees, asNumber?, Bool.beq_comm]

/-- Whether the payload has a text at all: a number may be too long. -/
def isWritable : Payload → Bool
  | number value => (Decimal.write? value).isSome
  | text _ | flag _ => true

/-- The payload as it stands inside the braces of a token's text. -/
def plain : Payload → String
  | number value => toString value
  | text content => content
  | flag value => if value then "True" else "False"

/-- The payload as a field: texts are quoted. -/
def quoted : Payload → String
  | text content => Quoted.ofString content
  | payload => payload.plain

end Payload

namespace Token

/-- The payload of a scanned token. -/
def payload? : Token → Option Payload
  | number value => some (.number value)
  | identifier name => some (.text name)
  | symbol character => some (.text character.toString)
  | string content => some (.text content)
  | keyword _ | operator _ | layout _ => none

theorem isSome_payload? (token : Token) :
    token.payload?.isSome = token.kind.carriesPayload := by
  cases token <;> rfl

end Token

/-- A token put together by hand. -/
structure Form where
  /-- What the token is. -/
  kind : Kind
  /-- Its payload, of any type. -/
  payload : Option Payload
  /-- A payload is there exactly if the kind carries one. -/
  fits : payload.isSome = kind.carriesPayload
deriving DecidableEq, Repr

/-- Why a kind and a payload do not make a form. -/
inductive FormFault
  | missingPayload (kind : Kind)
  | surplusPayload (kind : Kind)
deriving DecidableEq, Repr

/-- What is said about a kind and a payload that do not fit. -/
def FormFault.message : FormFault → String
  | missingPayload kind => kind.label ++ " token requires a value"
  | surplusPayload kind => kind.label ++ " token takes no value"

namespace Form

/-- The form of a kind and a payload, if they fit. -/
def make (kind : Kind) (payload : Option Payload) : Except FormFault Form :=
  if fits : payload.isSome = kind.carriesPayload then .ok ⟨kind, payload, fits⟩
  else if kind.carriesPayload then .error (.missingPayload kind)
  else .error (.surplusPayload kind)

/-- The form of a scanned token. -/
def ofToken (token : Token) : Form :=
  ⟨token.kind, token.payload?, token.isSome_payload?⟩

/-- The form of a one-character symbol. -/
def ofSymbol (character : Char) : Form :=
  ofToken (.symbol character)

@[simp] theorem make_ofToken (token : Token) :
    make token.kind token.payload? = .ok (ofToken token) := by
  simp [make, ofToken, token.isSome_payload?]

/-- Equality of optional payloads by value. -/
def payloadsAgree : Option Payload → Option Payload → Bool
  | some left, some right => left.agrees right
  | none, none => true
  | _, _ => false

/-- Equality of forms: the same kind, and payloads that are equal by value. -/
def agrees (left right : Form) : Bool :=
  left.kind == right.kind && payloadsAgree left.payload right.payload

/-- Whether the form has a text at all. -/
def isWritable (form : Form) : Bool :=
  form.payload.all Payload.isWritable

/-- The text of a form in messages: its label, with the payload in braces where
there is one. -/
def text (form : Form) : String :=
  match form.payload with
  | some payload => Token.braced form.kind.label payload.plain
  | none => form.kind.label

/-- The form field by field. -/
def fields (form : Form) : String :=
  "Token(type=TokenType." ++ form.kind.fieldName ++ ", value=" ++
    (form.payload.map Payload.quoted).getD "None" ++ ")"

/-- The form of a scanned token reads as the token does. -/
@[simp] theorem text_ofToken (token : Token) : (ofToken token).text = token.text := by
  cases token <;> rfl

end Form

end Offside
