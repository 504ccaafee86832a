import Offside.Grammar.Statement

/-!
# Reading programs

`Program.read` reads a whole tape as a program.  It gives the tree or the first
fault, and in both cases what was declared on the way.

`Program.notesUpTo` tells the same story as a log would: the classes in the order in
which they were finished, and among them the moment when the end of the source
came into view, which is when the parser moved on to the batch that ends the
stream.
-/

namespace Offside

/-- Something worth a line in a log. -/
inductive Note
  /-- The end of the source came into view; the stream holds so many tokens. -/
  | endOfInput (tokens : Nat)
  /-- A class was read to its end. -/
  | declaredClass (name : String) (parent : Option String)
deriving DecidableEq, Repr

/-- The log line of a note. -/
def Note.text : Note → String
  | endOfInput tokens => "end of input after " ++ toString tokens ++ " tokens"
  | declaredClass name parent =>
    "declared class " ++ name ++ " (parent: " ++ parent.getD "None" ++ ")"

/-- A program that was read, or the fault in it. -/
structure Program where
  /-- The tree of the program. -/
  result : Except SourceFault Node
  /-- What was declared. -/
  declared : Declared
  /-- What a log would say. -/
  notes : List Note

namespace Program

/-- The note of a class that was read to its end. -/
def noteOf (declaration : Declaration) : Note :=
  .declaredClass declaration.name declaration.parent

/-- The notes of a reading that got so far into a tape. -/
def notesUpTo (tape : Tape) (reached : Nat) (finished : List Declaration) : List Note :=
  match tape.ending? with
  | none => finished.map noteOf
  | some (place, beforeLast) =>
    if beforeLast ≤ reached then
      (finished.filter fun declaration => declaration.reached < beforeLast).map noteOf ++
        .endOfInput (place.index + 1) ::
        (finished.filter fun declaration => beforeLast ≤ declaration.reached).map noteOf
    else finished.map noteOf

/-- Reads a tape as a program.  `source` numbers the source, and `names` says which
classes names mean at first. -/
def read (source : Nat) (classes : Classes) (names : Bindings ClassId) (tape : Tape) :
    Program :=
  match Statement.program source tape ⟨classes, names, []⟩ with
  | .ok statements declared =>
    let reached := (tape.ending?.map fun ending => ending.1.index).getD 0
    ⟨.ok (.block statements), declared, notesUpTo tape reached declared.finished.reverse⟩
  | .error refusal declared =>
    ⟨.error refusal.fault, declared, notesUpTo tape refusal.reached declared.finished.reverse⟩

end Program

end Offside
