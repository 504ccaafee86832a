import Offside.Token.Scanner

/-!
# Cursors

A cursor stands on one token of a text and reads no further than it is asked to.
`next` moves it on by one token and loads a batch only when it has none pending;
at the end of the source it stays.  `expect` compares the current token with a
wanted one and does not move.

After a fault of the scanner the cursor stands where it stood, on a scanner that
has moved behind the fault.
-/

namespace Offside

/-- A place in the token stream of a text. -/
structure Cursor where
  /-- The tokens before the current one, the latest first. -/
  passed : List Located
  /-- The current token. -/
  current : Located
  /-- Tokens of the same batch after the current one. -/
  pending : List Located
  /-- The scanner behind the pending tokens. -/
  scanner : Scanner
deriving Repr

/-- Why a token is not the wanted one. -/
inductive ExpectFault
  /-- The source holds another token, or none. -/
  | source (fault : SourceFault)
  /-- The wanted token does not exist. -/
  | form (fault : FormFault)
  /-- The wanted token is too long to be named in a message. -/
  | unwritable
deriving DecidableEq, Repr

/-- What a caller learns about a token that is the wanted one. -/
inductive Reply
  | token (token : Token)
  | payload (payload : Payload)
deriving DecidableEq, Repr

namespace Cursor

/-- The cursor on the first token of the batch that ends the stream. -/
def arriveLast (passed closing : List Located) (line : Nat) : Cursor :=
  match closing with
  | [] => ⟨passed, ⟨.eof, line⟩, [], .spent line⟩
  | first :: more => ⟨passed, first, more ++ [⟨.eof, line⟩], .spent line⟩

/-- The cursor on the first token of a text. -/
def ofScanner (scanner : Scanner) : Except SourceFault Cursor :=
  match scanner.load with
  | .batch first more next => .ok ⟨[], first, more, next⟩
  | .last closing line => .ok (arriveLast [] closing line)
  | .fault fault _ => .error fault

/-- The cursor on the first token of a text. -/
def ofString (text : String) : Except SourceFault Cursor :=
  ofScanner (.ofString text)

/-- All tokens that were loaded so far. -/
def tokens (cursor : Cursor) : List Located :=
  cursor.passed.reverse ++ cursor.current :: cursor.pending

/-- Moves on by one token. -/
def next (cursor : Cursor) : Except SourceFault Token × Cursor :=
  match cursor.pending with
  | upcoming :: later =>
    (.ok upcoming.token, ⟨cursor.current :: cursor.passed, upcoming, later, cursor.scanner⟩)
  | [] =>
    if cursor.current.token = .eof then (.ok .eof, cursor)
    else
      match cursor.scanner.load with
      | .batch first more next =>
        (.ok first.token, ⟨cursor.current :: cursor.passed, first, more, next⟩)
      | .last closing line =>
        let moved := arriveLast (cursor.current :: cursor.passed) closing line
        (.ok moved.current.token, moved)
      | .fault fault next => (.error fault, { cursor with scanner := next })

/-- What is learned from a token of the wanted kind: its payload, or the token
itself where the kind has none. -/
def reply (token : Token) : Reply :=
  match token.payload? with
  | some payload => .payload payload
  | none => .token token

/-- Compares the current token with a wanted kind and, unless `wanted` is absent,
with a wanted payload. -/
def expect (cursor : Cursor) (kind : Kind) (wanted : Option (Option Payload)) :
    Except ExpectFault Reply :=
  let token := cursor.current.token
  let mismatch (expected : Wanted) : ExpectFault :=
    .source ⟨.mismatch expected token, cursor.current.line⟩
  if token.kind = kind then
    match wanted with
    | none => .ok (reply token)
    | some payload =>
      if Form.payloadsAgree token.payload? payload then .ok (reply token)
      else
        match Form.make kind payload with
        | .error fault => .error (.form fault)
        | .ok form => .error (if form.isWritable then mismatch (.exactly form) else .unwritable)
  else .error (mismatch (.anyOf kind))

/-- Moves on by one token and compares. -/
def expectNext (cursor : Cursor) (kind : Kind) (wanted : Option (Option Payload)) :
    Except ExpectFault Reply × Cursor :=
  match cursor.next with
  | (.ok _, moved) => (moved.expect kind wanted, moved)
  | (.error fault, moved) => (.error (.source fault), moved)

end Cursor

end Offside
