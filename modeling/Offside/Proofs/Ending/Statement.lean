import Offside.Proofs.Ending.Expression
import Offside.Proofs.Reading.Statement

/-!
# Statements with a clock

The readers of statements, off a cursor and with the classes that are declared on the way.  The
loops over the statements of a block, the methods of a class and the statements of a program wait
for a `dedent` or for the end of the source, and what they read may hold blocks of its own; so they
take turns as the loops of expressions do, and `statement` passes on one turn less than it has.

`Building.Agrees` compares such a reader with the one of the model: on a cursor that shows the
tape, and whatever is declared, both come to the same value or refusal and to the same
declarations (`agrees_statement`, `program_eq`).
-/

namespace Offside

/-- Reading off a cursor while classes are declared, in a limited number of turns. -/
abbrev Building (α : Type) : Type :=
  EStateM Halt (Cursor × Declared) α

namespace Building

open Tape (Step Reading Refusal)
open Declaring (ofReading)

variable {α β : Type}

/-- Gives up. -/
def late : Building α :=
  fun state => .error .late state

/-- Reading that declares nothing. -/
def ofReader (reader : Clocked α) : Building α :=
  fun state =>
    match reader state.1 with
    | .ok value cursor => .ok value (cursor, state.2)
    | .error halt cursor => .error halt (cursor, state.2)

/-- Reading that uses the classes declared so far. -/
def inSetting (source : Nat) (read : Expression.Setting → Clocked α) : Building α :=
  fun state => ofReader (read ⟨source, state.2.names⟩) state

/-- Declaring without reading. -/
def ofDeclaring (action : Declaring α) : Building α :=
  fun state =>
    match action state.2 with
    | .ok value declared => .ok value (state.1, declared)
    | .error refusal declared => .error (.refused refusal) (state.1, declared)

/-- The current token. -/
def current : Building Token :=
  ofReader Clocked.current

/-- Moves on, whatever the current token is. -/
def advance : Building Token :=
  ofReader Clocked.advance

/-! ## Agreement -/

/-- The reader came to what the reading came to. -/
inductive Same {bound : Nat} :
    EStateM.Result Halt (Cursor × Declared) α → EStateM.Result Refusal Declared (Step α bound) →
      Prop
  | ok (step : Step α bound) (declared : Declared) {cursor : Cursor} (h : cursor.Shows step.rest) :
      Same (.ok step.value (cursor, declared)) (.ok step declared)
  | error (refusal : Refusal) (cursor : Cursor) (declared : Declared) :
      Same (.error (.refused refusal) (cursor, declared)) (.error refusal declared)

/-- On every cursor that shows the tape, the reader comes to what the reading comes to. -/
def Agrees (tape : Tape) {bound : Nat} (reader : Building α) (reading : Declaring (Step α bound)) :
    Prop :=
  ∀ cursor declared, cursor.Shows tape → Same (reader (cursor, declared)) (reading declared)

variable {tape rest outer : Tape} {bound larger turns time source : Nat} {reader : Building α}
  {next : α → Building β} {reading : Declaring (Step α bound)} {value : α} {inMethod : Bool}

theorem Agrees.pure (h : tape.length < bound) :
    Agrees tape (Pure.pure value) (Pure.pure ⟨value, tape, h⟩) :=
  fun _ declared hshows => .ok ⟨value, tape, h⟩ declared hshows

theorem Agrees.ofReader {clocked : Clocked α} {read : Reading α bound}
    (h : Clocked.Agrees tape clocked read) : Agrees tape (ofReader clocked) (ofReading read) := by
  intro cursor declared hshows
  have hsame := h cursor hshows
  unfold Building.ofReader
  dsimp only
  generalize clocked cursor = result at hsame ⊢
  cases hsame with
  | ok step hrest => exact .ok step declared hrest
  | error refusal after => exact .error refusal after declared

theorem Agrees.inSetting {clocked : Expression.Setting → Clocked α}
    {read : Expression.Setting → Reading α bound}
    (h : ∀ setting, Clocked.Agrees tape (clocked setting) (read setting)) :
    Agrees tape (inSetting source clocked) (Declaring.inSetting source read) :=
  fun cursor declared hshows => Agrees.ofReader (h _) cursor declared hshows

/-- Readers agree in sequence if each of them does, where the second one starts from what the
first one leaves. -/
theorem Agrees.bind_of {later : Step α bound → Declaring (Step β larger)}
    (h : Agrees tape reader reading)
    (hnext : ∀ step before after,
      Statement.Declares reading before step.value step.rest after →
        Agrees step.rest (next step.value) (later step)) :
    Agrees tape (reader >>= next) (reading >>= later) := by
  intro cursor declared hshows
  have hsame := h cursor declared hshows
  change Same (EStateM.bind reader next _) (EStateM.bind reading later _)
  unfold EStateM.bind
  generalize hread : reading declared = found at hsame
  generalize reader (cursor, declared) = result at hsame ⊢
  cases hsame with
  | ok step after hrest => exact hnext step declared after ⟨step.shorter, hread⟩ _ _ hrest
  | error refusal moved after => exact .error refusal moved after

theorem Agrees.bind {later : Step α bound → Declaring (Step β larger)}
    (h : Agrees tape reader reading)
    (hnext : ∀ step, Agrees step.rest (next step.value) (later step)) :
    Agrees tape (reader >>= next) (reading >>= later) :=
  h.bind_of fun step _ _ _ => hnext step

/-- Declaring moves no cursor. -/
theorem Agrees.ofDeclaring {action : Declaring α} {later : α → Declaring (Step β bound)}
    (h : ∀ value, Agrees tape (next value) (later value)) :
    Agrees tape (ofDeclaring action >>= next) (action >>= later) := by
  intro cursor declared hshows
  change Same (EStateM.bind (Building.ofDeclaring action) next _) (EStateM.bind action later _)
  unfold EStateM.bind Building.ofDeclaring
  dsimp only
  cases action declared with
  | ok value after => exact h value cursor after hshows
  | error refusal after => exact .error refusal cursor after

/-- The current token is the one of the tape. -/
theorem Agrees.current {next : Token → Building β} {reading : Declaring (Step β bound)}
    (h : Agrees tape (next tape.current) reading) :
    Agrees tape (Building.current >>= next) reading := by
  intro cursor declared hshows
  change Same (next cursor.current.token (cursor, declared)) (reading declared)
  rw [hshows.token_eq]
  exact h cursor declared hshows

/-- The place of the current token is the one of the tape. -/
theorem Agrees.index {next : Nat → Building β} {reading : Declaring (Step β bound)}
    (h : Agrees tape (next tape.place.index) reading) :
    Agrees tape (Building.ofReader Clocked.index >>= next) reading := by
  intro cursor declared hshows
  change Same (next cursor.passed.length (cursor, declared)) (reading declared)
  rw [hshows.standsOn.index]
  exact h cursor declared hshows

/-- Readers agree where both of them go the same way and agree there. -/
theorem Agrees.ite {condition : Prop} [Decidable condition] {other : Building α}
    {otherReading : Declaring (Step α bound)} (hthen : condition → Agrees tape reader reading)
    (helse : ¬ condition → Agrees tape other otherReading) :
    Agrees tape (if condition then reader else other)
      (if condition then reading else otherReading) := by
  split
  · next h => exact hthen h
  · next h => exact helse h

/-- Another bound makes no difference. -/
theorem Agrees.widen (h : Agrees tape reader reading) {hle : Step α bound → bound ≤ larger} :
    Agrees tape reader (reading >>= fun step => Pure.pure (step.widen (hle step))) := by
  rw [← bind_pure reader]
  refine h.bind fun step => ?_
  exact .pure _

theorem agrees_advance (h : tape.current ≠ .eof) :
    Agrees tape advance (ofReading tape.advance) :=
  .ofReader (Clocked.agrees_advance h)

theorem agrees_expectKind {kind : Kind} (h : kind ≠ .layout .eof) :
    Agrees tape (ofReader (Clocked.expectKind kind)) (ofReading (tape.expectKind kind)) :=
  .ofReader (Clocked.agrees_expectKind h)

theorem agrees_expectName :
    Agrees tape (ofReader Clocked.expectName) (ofReading tape.expectName) :=
  .ofReader Clocked.agrees_expectName

theorem agrees_expectSymbol {character : Char} :
    Agrees tape (ofReader (Clocked.expectSymbol character))
      (ofReading (tape.expectSymbol character)) :=
  .ofReader Clocked.agrees_expectSymbol

theorem agrees_refuse {cause : SourceCause} :
    Agrees tape (ofReader (Clocked.refuse cause))
      (ofReading (tape.refuse cause : Reading α bound)) :=
  .ofReader (Clocked.agrees_refuse cause)

/-! ## Simple statements -/

section

variable (source time : Nat)

/-- Behind a dotted name: an equals sign and a value, or the rest of an expression. -/
def namedTail (name : String) (fields : List String) : Building Node := do
  if (← current) = .symbol '=' then
    let _ ← advance
    let value ← inSetting source fun setting => Clocked.expression setting time
    return Statement.assignment name fields value
  else inSetting source fun setting => Clocked.continued setting time name fields

/-- What follows the word `print`: arguments, or nothing at the end of the line. -/
def printed : Building (List Node) := do
  if (← current) = .newline then return []
  else inSetting source fun setting => Clocked.expressions setting time

/-- A statement without the end of its line. -/
def simple (inMethod : Bool) : Building Node := do
  match ← current with
  | .keyword .returnWord =>
    if inMethod then
      let _ ← advance
      let value ← inSetting source fun setting => Clocked.expression setting time
      return .giveBack value
    else ofReader (Clocked.refuse .returnOutsideMethod)
  | .keyword .printWord =>
    let _ ← advance
    let values ← printed source time
    return .print values
  | .identifier _ =>
    let name ← ofReader (Clocked.dottedName time)
    namedTail source time name.1 name.2
  | _ => inSetting source fun setting => Clocked.expression setting time

/-- A statement that fills its line. -/
def line (inMethod : Bool) : Building Node := do
  let statement ← simple source time inMethod
  let _ ← ofReader (Clocked.expectKind (.layout .newline))
  return statement

end

theorem agrees_expression (h : tape.length < time) :
    Agrees tape (inSetting source fun setting => Clocked.expression setting time)
      (Declaring.inSetting source fun setting => Expression.expression setting tape) :=
  .inSetting fun _ => Clocked.agrees_expression h

theorem agrees_namedTail {name : String} {fields : List String} (h : tape.length < time) :
    Agrees tape (namedTail source time name fields)
      (Statement.namedTail source name fields tape) := by
  refine .current (.ite (fun hcurrent => ?_) fun _ => ?_)
  · refine (agrees_advance (hcurrent ▸ nofun)).bind fun equals => ?_
    have := equals.succ_le
    refine (agrees_expression (by omega)).bind fun value => ?_
    exact .pure _
  · exact .inSetting fun _ => Clocked.agrees_continued h

theorem agrees_printed (h : tape.length < time) :
    Agrees tape (printed source time) (Statement.printed source tape) := by
  refine .current (.ite (fun _ => .pure _) fun _ => ?_)
  exact (Agrees.inSetting fun _ => Clocked.agrees_expressions h).widen

theorem agrees_simple (h : tape.length < time) :
    Agrees tape (simple source time inMethod) (Statement.simple source inMethod tape) := by
  refine .current ?_
  unfold Statement.simple
  cases hcurrent : tape.current with
  | keyword word =>
      cases word with
      | returnWord =>
          refine .ite (fun _ => ?_) fun _ => agrees_refuse
          refine (agrees_advance (hcurrent ▸ nofun)).bind fun word => ?_
          have := word.succ_le
          refine (agrees_expression (by omega)).bind fun value => ?_
          exact .pure _
      | printWord =>
          refine (agrees_advance (hcurrent ▸ nofun)).bind fun word => ?_
          have := word.succ_le
          refine (agrees_printed (by omega)).bind fun values => ?_
          exact .pure _
      | _ => exact agrees_expression h
  | identifier name =>
      refine (Agrees.ofReader (Clocked.agrees_dottedName h)).bind fun name => ?_
      have := name.succ_le
      exact (agrees_namedTail (by omega)).widen
  | _ => exact agrees_expression h

theorem agrees_line (h : tape.length < time) :
    Agrees tape (line source time inMethod) (Statement.line source inMethod tape) := by
  refine (agrees_simple h).bind fun statement => ?_
  refine (agrees_expectKind (by decide)).bind fun ending => ?_
  exact .pure _

/-! ## Blocks and conditionals -/

section

variable (source time : Nat) (inner : Bool → Building Node)

/-- The statements before the end of a block. -/
def statements (inMethod : Bool) : Nat → Building (List Node)
  | 0 => late
  | turns + 1 => do
    match ← current with
    | .layout .dedent => return []
    | .layout .eof => ofReader (Clocked.refuse .unclosedBlock)
    | _ =>
      let first ← inner inMethod
      let others ← statements inMethod turns
      return first :: others

/-- The end of a line and an indented block. -/
def suite (inMethod : Bool) : Building Node := do
  let _ ← ofReader (Clocked.expectKind (.layout .newline))
  let _ ← ofReader (Clocked.expectKind (.layout .indent))
  let block ← statements inner inMethod time
  let _ ← advance
  return .block block

/-- A conditional. -/
def conditional (inMethod : Bool) : Building Node := do
  let _ ← ofReader (Clocked.expectKind (.keyword .ifWord))
  let condition ← inSetting source fun setting => Clocked.expression setting time
  let _ ← ofReader (Clocked.expectSymbol ':')
  let consequent ← suite time inner inMethod
  if (← current) = .keyword .elseWord then
    let _ ← advance
    let _ ← ofReader (Clocked.expectSymbol ':')
    let alternative ← suite time inner inMethod
    return .ifThenElse condition consequent alternative
  else return .ifThen condition consequent

end

section

variable {reader : Bool → Building Node} {inner : Statement.Inner outer}
  (htime : outer.length < time)
  (hinner : ∀ inMethod shorter h, Agrees shorter (reader inMethod) (inner inMethod shorter h))

include hinner

theorem agrees_statements {h : tape.length < outer.length} (hturns : tape.length < turns) :
    Agrees tape (statements reader inMethod turns)
      (Statement.statements inner inMethod tape h) := by
  induction turns generalizing tape with
  | zero => exact absurd hturns (Nat.not_lt_zero _)
  | succ turns ih =>
      -- at every token but `dedent` and `eof` there is a statement, and then the rest
      have hmore : Agrees tape
          (do
            let first ← reader inMethod
            let others ← statements reader inMethod turns
            return first :: others)
          (do
            let first ← inner inMethod tape h
            have := first.succ_le
            let others ← Statement.statements inner inMethod first.rest (by omega)
            return ⟨first.value :: others.value, others.rest,
              by have := others.succ_le; omega⟩ : Declaring (Step _ (tape.length + 1))) := by
        refine (hinner _ _ _).bind fun first => ?_
        have := first.succ_le
        refine (ih (by omega)).bind fun others => ?_
        exact .pure _
      rw [Statement.statements]
      refine .current ?_
      cases hcurrent : tape.current with
      | layout mark =>
          cases mark with
          | dedent => exact .pure _
          | eof => exact agrees_refuse
          | _ => exact hmore
      | _ => exact hmore

include htime

theorem agrees_suite {h : tape.length ≤ outer.length} :
    Agrees tape (suite time reader inMethod) (Statement.suite inner inMethod tape h) := by
  refine (agrees_expectKind (by decide)).bind fun ending => ?_
  refine (agrees_expectKind (by decide)).bind fun opening => ?_
  have := ending.succ_le
  have := opening.succ_le
  refine (agrees_statements hinner (by omega)).bind_of fun block _ _ hread => ?_
  refine (agrees_advance (hread.current_statements ▸ nofun)).bind fun closing => ?_
  exact .pure _

theorem agrees_conditional {h : tape.length ≤ outer.length} :
    Agrees tape (conditional source time reader inMethod)
      (Statement.conditional source inner inMethod tape h) := by
  refine (agrees_expectKind (by decide)).bind fun word => ?_
  have := word.succ_le
  refine (agrees_expression (by omega)).bind fun condition => ?_
  refine agrees_expectSymbol.bind fun colon => ?_
  refine (agrees_suite htime hinner).bind fun consequent => ?_
  refine .current (.ite (fun hcurrent => ?_) fun _ => .pure _)
  refine (agrees_advance (hcurrent ▸ nofun)).bind fun otherwise => ?_
  refine agrees_expectSymbol.bind fun colon => ?_
  refine (agrees_suite htime hinner).bind fun alternative => ?_
  exact .pure _

end

/-! ## Classes -/

/-- The parameters of a method, with commas between them, if there are any. -/
def parameters (time : Nat) : Clocked (List String) := do
  if (← Clocked.current).kind = .identifier then
    let first ← Clocked.expectName
    let others ← Clocked.namesAfter ',' time
    return first :: others
  else return []

/-- The class that the current token names. -/
def base (setting : Expression.Setting) : Clocked ClassId := do
  match ← Clocked.current with
  | .identifier name =>
    match setting.classes.get? name with
    | some cls => do
      let _ ← Clocked.advance
      return cls
    | none => Clocked.refuse (.undefinedBase name)
  | other => Clocked.refuse (.mismatch (.anyOf .identifier) other)

/-- The parent that a class names in parentheses, if it names one. -/
def parentOf (source : Nat) : Building (Option ClassId) := do
  if (← current) = .symbol '(' then
    let _ ← advance
    let parent ← inSetting source base
    let _ ← ofReader (Clocked.expectSymbol ')')
    return some parent
  else return none

section

variable (source time : Nat) (inner : Bool → Building Node)

/-- A method. -/
def method : Building Method := do
  let _ ← ofReader (Clocked.expectKind (.keyword .defWord))
  let name ← ofReader Clocked.expectName
  let _ ← ofReader (Clocked.expectSymbol '(')
  let names ← ofReader (parameters time)
  let _ ← ofReader (Clocked.expectSymbol ')')
  let _ ← ofReader (Clocked.expectSymbol ':')
  let block ← suite time inner true
  return ⟨name, Statement.withoutSelf names, .body block⟩

/-- The methods before the end of a class, each added to the class. -/
def methods (cls : ClassId) : Nat → Building Unit
  | 0 => late
  | turns + 1 => do
    if (← current) = .dedent then return ()
    else
      let first ← method time inner
      ofDeclaring (Declaring.define cls first)
      methods cls turns

/-- A class. -/
def classDefinition : Building Node := do
  let _ ← ofReader (Clocked.expectKind (.keyword .classWord))
  let name ← ofReader Clocked.expectName
  let parent ← parentOf source
  let _ ← ofReader (Clocked.expectSymbol ':')
  let _ ← ofReader (Clocked.expectKind (.layout .newline))
  let _ ← ofReader (Clocked.expectKind (.layout .indent))
  let cls ← ofDeclaring (Declaring.declare name parent)
  methods time inner cls time
  let _ ← advance
  let reached ← ofReader Clocked.index
  ofDeclaring (Declaring.finish reached name parent)
  return .classDefinition cls

/-- A statement, given how to read the statements inside it. -/
def layer (inMethod : Bool) : Building Node := do
  match ← current with
  | .keyword .classWord => classDefinition source time inner
  | .keyword .ifWord => conditional source time inner inMethod
  | _ => line source time inMethod

end

theorem agrees_parameters (h : tape.length < time) :
    Clocked.Agrees tape (parameters time) (Statement.parameters tape) := by
  refine .current (.ite (fun _ => ?_) fun _ => .pure _)
  refine Clocked.agrees_expectName.bind fun first => ?_
  have := first.succ_le
  refine (Clocked.agrees_namesAfter (by omega)).bind fun others => ?_
  exact .pure _

theorem agrees_base {setting : Expression.Setting} :
    Clocked.Agrees tape (base setting) (Statement.base setting tape) := by
  refine .current ?_
  unfold Statement.base
  cases hcurrent : tape.current with
  | identifier name =>
      dsimp only
      cases setting.classes.get? name with
      | some cls => exact Clocked.agrees_take (hcurrent ▸ nofun)
      | none => exact Clocked.agrees_refuse _
  | _ => exact Clocked.agrees_refuse _

theorem agrees_parentOf : Agrees tape (parentOf source) (Statement.parentOf source tape) := by
  refine .current (.ite (fun hcurrent => ?_) fun _ => .pure _)
  refine (agrees_advance (hcurrent ▸ nofun)).bind fun opening => ?_
  refine (Agrees.inSetting fun _ => agrees_base).bind fun parent => ?_
  refine agrees_expectSymbol.bind fun closing => ?_
  exact .pure _

section

variable {reader : Bool → Building Node} {inner : Statement.Inner outer}
  (htime : outer.length < time)
  (hinner : ∀ inMethod shorter h, Agrees shorter (reader inMethod) (inner inMethod shorter h))
include htime hinner

theorem agrees_method {h : tape.length ≤ outer.length} :
    Agrees tape (method time reader) (Statement.method inner tape h) := by
  refine (agrees_expectKind (by decide)).bind fun word => ?_
  refine agrees_expectName.bind fun name => ?_
  refine agrees_expectSymbol.bind fun opening => ?_
  have := word.succ_le
  have := name.succ_le
  have := opening.succ_le
  refine (Agrees.ofReader (agrees_parameters (by omega))).bind fun names => ?_
  refine agrees_expectSymbol.bind fun closing => ?_
  refine agrees_expectSymbol.bind fun colon => ?_
  refine (agrees_suite htime hinner).bind fun block => ?_
  exact .pure _

theorem agrees_methods {cls : ClassId} {h : tape.length < outer.length}
    (hturns : tape.length < turns) :
    Agrees tape (methods time reader cls turns) (Statement.methods inner cls tape h) := by
  induction turns generalizing tape with
  | zero => exact absurd hturns (Nat.not_lt_zero _)
  | succ turns ih =>
      rw [Statement.methods]
      refine .current (.ite (fun _ => .pure _) fun _ => ?_)
      refine (agrees_method htime hinner).bind fun first => ?_
      refine .ofDeclaring fun _ => ?_
      have := first.succ_le
      exact (ih (by omega)).widen

theorem agrees_classDefinition {h : tape.length ≤ outer.length} :
    Agrees tape (classDefinition source time reader)
      (Statement.classDefinition source inner tape h) := by
  refine (agrees_expectKind (by decide)).bind fun word => ?_
  refine agrees_expectName.bind fun name => ?_
  refine agrees_parentOf.bind fun parent => ?_
  refine agrees_expectSymbol.bind fun colon => ?_
  refine (agrees_expectKind (by decide)).bind fun ending => ?_
  refine (agrees_expectKind (by decide)).bind fun opening => ?_
  refine .ofDeclaring fun cls => ?_
  have := word.succ_le
  have := name.succ_le
  have := parent.succ_le
  have := colon.succ_le
  have := ending.succ_le
  have := opening.succ_le
  refine (agrees_methods htime hinner (by omega)).bind_of fun body _ _ hread => ?_
  refine (agrees_advance (hread.current_methods ▸ nofun)).bind fun closing => ?_
  refine .index (.ofDeclaring fun _ => ?_)
  exact .pure _

theorem agrees_layer {h : tape.length ≤ outer.length} :
    Agrees tape (layer source time reader inMethod)
      (Statement.layer source inner inMethod tape h) := by
  refine .current ?_
  unfold Statement.layer
  cases tape.current with
  | keyword word =>
      cases word with
      | classWord => exact agrees_classDefinition htime hinner
      | ifWord => exact agrees_conditional htime hinner
      | _ => exact agrees_line (by omega)
  | _ => exact agrees_line (by omega)

end

/-! ## Whole statements -/

/-- Reads a statement. -/
def statement (source : Nat) : Nat → Bool → Building Node
  | 0, _ => late
  | time + 1, inMethod => layer source (time + 1) (statement source time) inMethod

/-- Reads statements up to the end of the source. -/
def program (source time : Nat) : Nat → Building (List Node)
  | 0 => late
  | turns + 1 => do
    if (← current) = .eof then return []
    else
      let first ← statement source time false
      let others ← program source time turns
      return first :: others

theorem agrees_statement (h : tape.length < time) :
    Agrees tape (statement source time inMethod) (Statement.statement source inMethod tape) := by
  induction time generalizing tape inMethod with
  | zero => exact absurd h (Nat.not_lt_zero _)
  | succ time ih =>
      rw [Statement.statement]
      exact agrees_layer h fun _ _ _ => ih (by omega)

/-! ## Programs -/

/-- The reader came to the same value or refusal and to the same declarations, wherever the cursor
is then. -/
inductive Ends :
    EStateM.Result Halt (Cursor × Declared) α → EStateM.Result Refusal Declared α → Prop
  | ok (value : α) (cursor : Cursor) (declared : Declared) :
      Ends (.ok value (cursor, declared)) (.ok value declared)
  | error (refusal : Refusal) (cursor : Cursor) (declared : Declared) :
      Ends (.error (.refused refusal) (cursor, declared)) (.error refusal declared)

variable {cursor : Cursor} {declared : Declared}

theorem Agrees.ends_bind {later : Step α bound → Declaring β} (h : Agrees tape reader reading)
    (hshows : cursor.Shows tape)
    (hnext : ∀ step moved after, moved.Shows step.rest →
      Ends (next step.value (moved, after)) (later step after)) :
    Ends ((reader >>= next) (cursor, declared)) ((reading >>= later) declared) := by
  have hsame := h cursor declared hshows
  change Ends (EStateM.bind reader next _) (EStateM.bind reading later _)
  unfold EStateM.bind
  generalize reading declared = found at hsame ⊢
  generalize reader (cursor, declared) = result at hsame ⊢
  cases hsame with
  | ok step after hrest => exact hnext step _ after hrest
  | error refusal moved after => exact .error refusal moved after

theorem Ends.map {action : Declaring α}
    (h : Ends (reader (cursor, declared)) (action declared)) (f : α → β) :
    Ends ((do return f (← reader)) (cursor, declared)) ((do return f (← action)) declared) := by
  change Ends (EStateM.bind reader _ _) (EStateM.bind action _ _)
  unfold EStateM.bind
  generalize action declared = found at h ⊢
  generalize reader (cursor, declared) = result at h ⊢
  cases h with
  | ok value moved after => exact .ok (f value) moved after
  | error refusal moved after => exact .error refusal moved after

theorem program_ends (hshows : cursor.Shows tape) (htime : tape.length < time)
    (hturns : tape.length < turns) :
    Ends (program source time turns (cursor, declared))
      (Statement.program source tape declared) := by
  induction turns generalizing tape cursor declared with
  | zero => exact absurd hturns (Nat.not_lt_zero _)
  | succ turns ih =>
      rw [Statement.program]
      change Ends ((if cursor.current.token = .eof then _ else _ : Building _) _) _
      rw [hshows.token_eq]
      split
      · exact .ok [] cursor declared
      · refine (agrees_statement htime).ends_bind hshows fun first moved after hmoved => ?_
        have := first.succ_le
        exact (ih hmoved (by omega) (by omega)).map _

end Building

end Offside
