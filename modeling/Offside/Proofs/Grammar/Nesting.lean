import Offside.Proofs.Grammar.Interruption
import Offside.Proofs.Scanning.Order

/-!
# Where a parser stands

While a program is read, some statements, suites and classes are begun and not finished.  A
`Stage` is one of them, with the tape and the declarations that it began with, and `Enters` says
which stage begins another one, and which block has been opened in between.  `Reaches` is the chain
of these steps together with the blocks that are open at its end.

A stage also reads tokens of its own: a whole line, the head of a conditional or of a method, the
header of a class, what opens a suite.  `Stage.Shows` says what the parser has before it meanwhile,
and `Stands source first blocks here` that the parser, which began with the stage `first`, comes to
have `here` before it while these blocks are open.

All of this follows the readers call by call.  The readers are the ones that run; only what
comes before a call has a name here (`suiteHead` and the others), and the equations say that the
readers begin so.
-/

namespace Offside.Tape

variable {tape here rest : Tape} {tokens passed : List Token}

/-- Nothing lies between a tape and itself. -/
theorem Passes.eq_nil (h : Passes tape tokens tape) : tokens = [] := by
  have hlength := h.length_eq
  exact List.length_eq_zero_iff.mp (by omega)

/-- Of two places on a tape one comes first. -/
theorem Passes.compare (hhere : Passes tape tokens here) (hrest : Passes tape passed rest) :
    (∃ more, Passes here more rest ∧ more ≠ []) ∨ ∃ more, Passes rest more here := by
  induction hhere generalizing passed with
  | stay tape =>
      cases passed with
      | nil => exact .inr ⟨[], passes_nil.mpr (passes_nil.mp hrest).symm⟩
      | cons token passed => exact .inl ⟨_, hrest, List.cons_ne_nil _ _⟩
  | step token place hnext ih =>
      cases hrest with
      | stay => exact .inr ⟨_, .step token place hnext⟩
      | step _ _ hrest => exact ih hrest

theorem Counted.of_passes (h : tape.Counted) (hpass : Passes tape tokens rest) : rest.Counted := by
  induction hpass with
  | stay => exact h
  | step token place hpass ih => exact ih h.2

/-- Places on a tape come one after another as they are numbered. -/
theorem Passes.exists_of_le (hhere : Passes tape tokens here) (hrest : Passes tape passed rest)
    (hcounted : tape.Counted) (hle : here.place.index ≤ rest.place.index) :
    ∃ more, Passes here more rest := by
  obtain hahead | ⟨more, hmore⟩ := hhere.compare hrest
  · obtain ⟨more, hmore, -⟩ := hahead
    exact ⟨more, hmore⟩
  · have hindex := hmore.index_eq (hcounted.of_passes hrest)
    have hnil : more = [] := List.length_eq_zero_iff.mp (by omega)
    subst hnil
    exact ⟨[], passes_nil.mpr (passes_nil.mp hmore).symm⟩

end Offside.Tape

namespace Offside.Statement

open Tape
open Declaring (ofReading inSetting)

/-! ## Heads -/

section

variable (source : Nat)

/-- The end of a line and the opening of a block. -/
def suiteHead (tape : Tape) : Declaring (Step Unit tape.length) := do
  let ending ← ofReading (tape.expectKind (.layout .newline))
  let opening ← ofReading (ending.rest.expectKind (.layout .indent))
  return ⟨(), opening.rest, Nat.lt_trans opening.shorter ending.shorter⟩

/-- The condition of a conditional, up to the colon. -/
def conditionHead (tape : Tape) : Declaring (Step Node tape.length) := do
  let word ← ofReading (tape.expectKind (.keyword .ifWord))
  let condition ← inSetting source fun setting => Expression.expression setting word.rest
  let colon ← ofReading (condition.rest.expectSymbol ':')
  return ⟨condition.value, colon.rest,
    Nat.lt_trans colon.shorter (Nat.lt_trans condition.shorter word.shorter)⟩

/-- The word `else`, up to the colon. -/
def elseHead (tape : Tape) : Declaring (Step Unit tape.length) := do
  let word ← ofReading tape.advance
  let colon ← ofReading (word.rest.expectSymbol ':')
  return ⟨(), colon.rest, Nat.lt_trans colon.shorter word.shorter⟩

/-- The name and the parameters of a method, up to the colon. -/
def methodSignature (tape : Tape) : Declaring (Step (String × List String) tape.length) := do
  let word ← ofReading (tape.expectKind (.keyword .defWord))
  let name ← ofReading word.rest.expectName
  let opening ← ofReading (name.rest.expectSymbol '(')
  let names ← ofReading (parameters opening.rest)
  let closing ← ofReading (names.rest.expectSymbol ')')
  let colon ← ofReading (closing.rest.expectSymbol ':')
  return ⟨(name.value, names.value), colon.rest, by
    have := word.succ_le; have := name.succ_le; have := opening.succ_le
    have := names.succ_le; have := closing.succ_le; have := colon.succ_le; omega⟩

/-- The name and the parent of a class, up to the opening of its body. -/
def classHead (tape : Tape) : Declaring (Step (String × Option ClassId) tape.length) := do
  let word ← ofReading (tape.expectKind (.keyword .classWord))
  let name ← ofReading word.rest.expectName
  let parent ← parentOf source name.rest
  let colon ← ofReading (parent.rest.expectSymbol ':')
  let ending ← ofReading (colon.rest.expectKind (.layout .newline))
  let opening ← ofReading (ending.rest.expectKind (.layout .indent))
  return ⟨(name.value, parent.value), opening.rest, by
    have := word.succ_le; have := name.succ_le; have := parent.succ_le
    have := colon.succ_le; have := ending.succ_le; have := opening.succ_le; omega⟩

variable {outer : Tape} (inner : Inner outer)

theorem suite_eq (inMethod : Bool) (tape : Tape) (h : tape.length ≤ outer.length) :
    suite inner inMethod tape h = (do
      let head ← suiteHead tape
      have := head.succ_le
      let block ← statements inner inMethod head.rest (by omega)
      have := block.succ_le
      let closing ← ofReading block.rest.advance
      return ⟨.block block.value, closing.rest, by have := closing.succ_le; omega⟩) := by
  unfold suite suiteHead
  simp only [bind_assoc, pure_bind]

theorem conditional_eq (inMethod : Bool) (tape : Tape) (h : tape.length ≤ outer.length) :
    conditional source inner inMethod tape h = (do
      let head ← conditionHead source tape
      have := head.succ_le
      let consequent ← suite inner inMethod head.rest (by omega)
      have := consequent.succ_le
      if consequent.rest.current = .keyword .elseWord then
        let otherwise ← elseHead consequent.rest
        have := otherwise.succ_le
        let alternative ← suite inner inMethod otherwise.rest (by omega)
        return ⟨.ifThenElse head.value consequent.value alternative.value, alternative.rest,
          by have := alternative.succ_le; omega⟩
      else return ⟨.ifThen head.value consequent.value, consequent.rest, by omega⟩) := by
  unfold conditional conditionHead elseHead
  simp only [bind_assoc, pure_bind]

theorem method_eq (tape : Tape) (h : tape.length ≤ outer.length) :
    method inner tape h = (do
      let head ← methodSignature tape
      have := head.succ_le
      let block ← suite inner true head.rest (by omega)
      return ⟨⟨head.value.1, withoutSelf head.value.2, .body block.value⟩, block.rest,
        by have := block.succ_le; omega⟩) := by
  unfold method methodSignature
  simp only [bind_assoc, pure_bind]

theorem classDefinition_eq (tape : Tape) (h : tape.length ≤ outer.length) :
    classDefinition source inner tape h = (do
      let head ← classHead source tape
      have := head.succ_le
      let cls ← Declaring.declare head.value.1 head.value.2
      let body ← methods inner cls head.rest (by omega)
      have := body.succ_le
      let closing ← ofReading body.rest.advance
      Declaring.finish closing.rest.place.index head.value.1 head.value.2
      return ⟨.classDefinition cls, closing.rest, by have := closing.succ_le; omega⟩) := by
  unfold classDefinition classHead
  simp only [bind_assoc, pure_bind]

end

/-! ## Stages -/

/-- What a parser is reading. -/
inductive Task
  /-- The statements up to the end of the source. -/
  | program
  | statement (inMethod : Bool)
  /-- The end of a line and an indented block. -/
  | suite (inMethod : Bool)
  /-- The statements up to the end of a suite. -/
  | statements (inMethod : Bool)
  | method
  /-- The methods up to the end of a class. -/
  | methods (cls : ClassId)
deriving DecidableEq, Repr

/-- Something that a parser has begun to read. -/
structure Stage where
  task : Task
  /-- The tape that it began with. -/
  tape : Tape
  /-- What was declared by then. -/
  declared : Declared

/-- A block is open behind its `indent` and up to its `dedent`. -/
inductive Block
  | suite
  | classBody
deriving DecidableEq, Repr

variable {α β : Type} {bound larger : Nat}

/-- A reading comes by a place on its tape: it moves on from there, or it is refused there or
behind. -/
def ComesBy (tape : Tape) (before : Declared) (reading : Declaring (Step α bound))
    (here : Tape) : Prop :=
  ∃ tokens more, Passes tape tokens here ∧
    match reading before with
    | .ok step _ => Passes here more step.rest ∧ more ≠ []
    | .error refusal _ => ∃ stuck, Passes here more stuck ∧ refusal.reached = stuck.place.index

section

variable (source : Nat)

/-- Reading the first stage begins the second one, and these blocks, which were opened in between,
are still open there. -/
inductive Enters : Stage → List Block → Stage → Prop
  /-- A program is a first statement and the rest of the program. -/
  | first {tape : Tape} {declared : Declared} (hcurrent : tape.current ≠ .eof) :
      Enters ⟨.program, tape, declared⟩ [] ⟨.statement false, tape, declared⟩
  | rest {tape behind : Tape} {declared between : Declared} {node : Node}
      (hcurrent : tape.current ≠ .eof)
      (hfirst : Declares (statement source false tape) declared node behind between) :
      Enters ⟨.program, tape, declared⟩ [] ⟨.program, behind, between⟩
  | consequent {inMethod : Bool} {tape began : Tape} {declared between : Declared}
      {condition : Node} (hcurrent : tape.current = .keyword .ifWord)
      (hhead : Declares (conditionHead source tape) declared condition began between) :
      Enters ⟨.statement inMethod, tape, declared⟩ [] ⟨.suite inMethod, began, between⟩
  | alternative {inMethod : Bool} {outer tape began behind otherwise : Tape}
      {declared ready between last : Declared} {condition consequent : Node}
      {h : began.length ≤ outer.length} (hcurrent : tape.current = .keyword .ifWord)
      (hhead : Declares (conditionHead source tape) declared condition began ready)
      (hconsequent :
        Declares (suite (within source outer) inMethod began h) ready consequent behind between)
      (helse : behind.current = .keyword .elseWord)
      (hword : Declares (elseHead behind) between () otherwise last) :
      Enters ⟨.statement inMethod, tape, declared⟩ [] ⟨.suite inMethod, otherwise, last⟩
  /-- The body of a class is open behind its header. -/
  | body {inMethod : Bool} {tape opened : Tape} {declared ready between : Declared}
      {name : String} {parent : Option ClassId} {cls : ClassId}
      (hcurrent : tape.current = .keyword .classWord)
      (hhead : Declares (classHead source tape) declared (name, parent) opened ready)
      (hdeclare : Declaring.declare name parent ready = .ok cls between) :
      Enters ⟨.statement inMethod, tape, declared⟩ [.classBody] ⟨.methods cls, opened, between⟩
  /-- A suite is open behind the end of a line. -/
  | block {inMethod : Bool} {tape opened : Tape} {declared between : Declared}
      (hhead : Declares (suiteHead tape) declared () opened between) :
      Enters ⟨.suite inMethod, tape, declared⟩ [.suite] ⟨.statements inMethod, opened, between⟩
  | inner {inMethod : Bool} {tape : Tape} {declared : Declared}
      (hdedent : tape.current ≠ .dedent) (heof : tape.current ≠ .eof) :
      Enters ⟨.statements inMethod, tape, declared⟩ [] ⟨.statement inMethod, tape, declared⟩
  | others {inMethod : Bool} {tape behind : Tape} {declared between : Declared} {node : Node}
      (hdedent : tape.current ≠ .dedent) (heof : tape.current ≠ .eof)
      (hfirst : Declares (statement source inMethod tape) declared node behind between) :
      Enters ⟨.statements inMethod, tape, declared⟩ [] ⟨.statements inMethod, behind, between⟩
  | signature {tape began : Tape} {declared between : Declared} {head : String × List String}
      (hhead : Declares (methodSignature tape) declared head began between) :
      Enters ⟨.method, tape, declared⟩ [] ⟨.suite true, began, between⟩
  | method {cls : ClassId} {tape : Tape} {declared : Declared}
      (hdedent : tape.current ≠ .dedent) :
      Enters ⟨.methods cls, tape, declared⟩ [] ⟨.method, tape, declared⟩
  | methods {cls : ClassId} {outer tape behind : Tape} {declared between last : Declared}
      {definition : Method} {h : tape.length ≤ outer.length} (hdedent : tape.current ≠ .dedent)
      (hfirst :
        Declares (method (within source outer) tape h) declared definition behind between)
      (hdefine : Declaring.define cls definition between = .ok () last) :
      Enters ⟨.methods cls, tape, declared⟩ [] ⟨.methods cls, behind, last⟩

/-- Reading the first stage gets to the last one, where these blocks are open, the outermost of
them first. -/
inductive Reaches : Stage → List Block → Stage → Prop
  | here (stage : Stage) : Reaches stage [] stage
  | step {first next last : Stage} {opened blocks : List Block}
      (h : Enters source first opened next) (hrest : Reaches next blocks last) :
      Reaches first (opened ++ blocks) last

/-- While a stage is read and none that it enters, the parser has this before it. -/
inductive Stage.Shows : Stage → Tape → Prop
  | first (stage : Stage) : Shows stage stage.tape
  | line {inMethod : Bool} {tape here : Tape} {declared : Declared}
      (hclass : tape.current ≠ .keyword .classWord) (hif : tape.current ≠ .keyword .ifWord)
      (h : ComesBy tape declared (line source inMethod tape) here) :
      Shows ⟨.statement inMethod, tape, declared⟩ here
  | condition {inMethod : Bool} {tape here : Tape} {declared : Declared}
      (hcurrent : tape.current = .keyword .ifWord)
      (h : ComesBy tape declared (conditionHead source tape) here) :
      Shows ⟨.statement inMethod, tape, declared⟩ here
  | otherwise {inMethod : Bool} {outer tape began behind here : Tape}
      {declared ready between : Declared} {condition consequent : Node}
      {hbegan : began.length ≤ outer.length} (hcurrent : tape.current = .keyword .ifWord)
      (hhead : Declares (conditionHead source tape) declared condition began ready)
      (hconsequent : Declares (suite (within source outer) inMethod began hbegan) ready consequent
        behind between)
      (helse : behind.current = .keyword .elseWord)
      (h : ComesBy behind between (elseHead behind) here) :
      Shows ⟨.statement inMethod, tape, declared⟩ here
  | header {inMethod : Bool} {tape here : Tape} {declared : Declared}
      (hcurrent : tape.current = .keyword .classWord)
      (h : ComesBy tape declared (classHead source tape) here) :
      Shows ⟨.statement inMethod, tape, declared⟩ here
  | opening {inMethod : Bool} {tape here : Tape} {declared : Declared}
      (h : ComesBy tape declared (suiteHead tape) here) :
      Shows ⟨.suite inMethod, tape, declared⟩ here
  | signature {tape here : Tape} {declared : Declared}
      (h : ComesBy tape declared (methodSignature tape) here) : Shows ⟨.method, tape, declared⟩ here

/-- While the first stage is read, the parser comes to have this before it, and these blocks are
open then. -/
def Stands (first : Stage) (blocks : List Block) (here : Tape) : Prop :=
  ∃ stage, Reaches source first blocks stage ∧ stage.Shows source here

end

/-! ## Readings one after another -/

variable {source : Nat} {before between : Declared} {tape here rest : Tape} {refusal : Refusal}
  {last tokens : List Token}

theorem bind_of_ok {γ δ : Type} {reading : Declaring γ} {next : γ → Declaring δ} {value : γ}
    (h : reading before = .ok value between) : (reading >>= next) before = next value between := by
  change EStateM.bind reading next before = _
  rw [EStateM.bind, h]

theorem bind_of_error {γ δ : Type} {reading : Declaring γ} {next : γ → Declaring δ}
    (h : reading before = .error refusal between) :
    (reading >>= next) before = .error refusal between := by
  change EStateM.bind reading next before = _
  rw [EStateM.bind, h]

/-- Where a composite reading comes by, its first part does, or else the part behind it. -/
theorem ComesBy.of_bind {reading : Declaring (Step α bound)}
    {next : Step α bound → Declaring (Step β larger)}
    (hpasses : ∀ value rest after, Declares reading before value rest after →
      ∃ tokens, Passes tape tokens rest)
    (h : ComesBy tape before (reading >>= next) here) :
    ComesBy tape before reading here ∨
      ∃ first middle shorter between, Declares reading before first middle between ∧
        ComesBy middle between (next ⟨first, middle, shorter⟩) here := by
  unfold ComesBy at h ⊢
  obtain ⟨tokens, more, hpass, hend⟩ := h
  cases hread : reading before with
  | error refusal between =>
      rw [bind_of_error hread] at hend
      exact .inl ⟨tokens, more, hpass, hend⟩
  | ok step between =>
      rw [bind_of_ok hread] at hend
      have hdeclares : Declares reading before step.value step.rest between :=
        ⟨step.shorter, hread⟩
      obtain ⟨passed, hstep⟩ := hpasses _ _ _ hdeclares
      obtain hahead | ⟨later, hlater⟩ := hpass.compare hstep
      · obtain ⟨later, hlater⟩ := hahead
        exact .inl ⟨tokens, later, hpass, hlater⟩
      · exact .inr ⟨_, _, step.shorter, between, hdeclares, later, more, hlater, hend⟩

/-! ## Levels -/

/-- No block begins among the tokens, and none ends. -/
def IsLevel (tokens : List Token) : Prop :=
  ∀ token ∈ tokens, ¬ token.IsMargin

theorem IsPlain.isLevel (h : IsPlain tokens) : IsLevel tokens :=
  fun token hmem => not_or.mpr (h token hmem).2

theorem IsLevel.append {more : List Token} (h : IsLevel tokens) (hmore : IsLevel more) :
    IsLevel (tokens ++ more) :=
  fun token hmem => (List.mem_append.mp hmem).elim (h token) (hmore token)

/-- A reading passes tokens of one level and then these last ones, before which it is refused if it
is.  It declares nothing. -/
def KeepsLevel (last : List Token) (tape : Tape) (before : Declared)
    (reading : Declaring (Step α bound)) : Prop :=
  match reading before with
  | .ok step after =>
    after = before ∧ ∃ tokens, Passes tape (tokens ++ last) step.rest ∧ IsLevel tokens
  | .error refusal _ =>
    ∃ tokens stuck, Passes tape tokens stuck ∧ IsLevel tokens ∧ RefusedAt stuck refusal

theorem KeepsPlain.keepsLevel {reading : Declaring (Step α bound)}
    (h : KeepsPlain tape before reading) : KeepsLevel [] tape before reading := by
  unfold KeepsPlain at h
  unfold KeepsLevel
  cases hread : reading before with
  | ok step after =>
      rw [hread] at h
      obtain ⟨hafter, tokens, hpass, hplain⟩ := h
      exact ⟨hafter, tokens, by rwa [List.append_nil], hplain.isLevel⟩
  | error refusal after =>
      rw [hread] at h
      obtain ⟨-, tokens, stuck, hpass, hplain, hrefused⟩ := h
      exact ⟨tokens, stuck, hpass, hplain.isLevel, hrefused⟩

theorem KeepsLevel.bind {reading : Declaring (Step α bound)}
    {next : Step α bound → Declaring (Step β larger)} (h : KeepsLevel [] tape before reading)
    (hnext : ∀ first middle shorter,
      KeepsLevel last middle before (next ⟨first, middle, shorter⟩)) :
    KeepsLevel last tape before (reading >>= next) := by
  unfold KeepsLevel at h hnext ⊢
  cases hread : reading before with
  | error refusal between =>
      rw [hread] at h
      rwa [bind_of_error hread]
  | ok step between =>
      rw [hread] at h
      obtain ⟨rfl, tokens, hpass, hlevel⟩ := h
      rw [List.append_nil] at hpass
      rw [bind_of_ok hread]
      have hlast := hnext step.value step.rest step.shorter
      cases hresult : next step between with
      | ok final after =>
          rw [hresult] at hlast
          obtain ⟨hafter, more, hmore, hlevel'⟩ := hlast
          refine ⟨hafter, tokens ++ more, ?_, hlevel.append hlevel'⟩
          rw [List.append_assoc]
          exact hpass.append hmore
      | error refusal after =>
          rw [hresult] at hlast
          obtain ⟨more, stuck, hmore, hlevel', hrefused⟩ := hlast
          exact ⟨_, stuck, hpass.append hmore, hlevel.append hlevel', hrefused⟩

theorem KeepsLevel.map {reading : Declaring (Step α bound)} {f : Step α bound → Step β larger}
    (h : KeepsLevel last tape before reading) (hf : ∀ step, (f step).rest = step.rest) :
    KeepsLevel last tape before (reading >>= fun step => pure (f step)) := by
  unfold KeepsLevel at h ⊢
  cases hread : reading before with
  | error refusal after =>
      rw [hread] at h
      rwa [bind_of_error hread]
  | ok step after =>
      rw [hread] at h
      rw [bind_of_ok hread]
      obtain ⟨hafter, tokens, hpass, hlevel⟩ := h
      exact ⟨hafter, tokens, (hf step).symm ▸ hpass, hlevel⟩

/-- A reading that can only refuse the current token. -/
theorem keepsLevel_ofReading {reading : Reading α bound}
    (hreads : ∀ value rest, Reads reading value rest →
      ∃ tokens, Passes tape (tokens ++ last) rest ∧ IsLevel tokens)
    (hrefused : ∀ refusal, reading = .error refusal → RefusedAt tape refusal) :
    KeepsLevel last tape before (ofReading reading) := by
  cases reading with
  | error refusal => exact ⟨[], tape, .stay tape, by simp [IsLevel], hrefused refusal rfl⟩
  | ok step => exact ⟨rfl, hreads step.value step.rest (reads_ok.mpr ⟨rfl, rfl⟩)⟩

theorem KeepsLevel.of_declares {reading : Declaring (Step α bound)} {value : α}
    (h : KeepsLevel last tape before reading) (hread : Declares reading before value rest between) :
    between = before ∧ ∃ tokens, Passes tape (tokens ++ last) rest ∧ IsLevel tokens := by
  unfold KeepsLevel at h
  obtain ⟨shorter, hread⟩ := hread
  rwa [hread] at h

/-- The tokens that a reading passes before its last one are of one level. -/
theorem KeepsLevel.level_of_comesBy {reading : Declaring (Step α bound)}
    (h : KeepsLevel last tape before reading) (hlast : last.length ≤ 1) (hcounted : tape.Counted)
    (hcomes : ComesBy tape before reading here) :
    ∃ tokens, Passes tape tokens here ∧ IsLevel tokens := by
  unfold KeepsLevel at h
  obtain ⟨tokens, more, hpass, hend⟩ := hcomes
  refine ⟨tokens, hpass, ?_⟩
  -- two places on the tape, and what is passed up to the later one is of one level
  have hlevel {passed : List Token} {place : Tape} (hplace : Passes tape passed place)
      (hpassed : IsLevel passed) (hle : tokens.length ≤ passed.length) : IsLevel tokens := by
    have hfront : tokens <+: passed :=
      List.prefix_of_prefix_length_le ⟨_, hpass.words_append.symm⟩ ⟨_, hplace.words_append.symm⟩ hle
    exact fun token hmem => hpassed token (hfront.subset hmem)
  cases hread : reading before with
  | ok step after =>
      rw [hread] at h hend
      obtain ⟨-, passed, hpassed, hsame⟩ := h
      obtain ⟨hmore, hne⟩ := hend
      obtain ⟨place, hplace, -⟩ := hpassed.split passed
      have hlength := (hpass.append hmore).length_eq
      rw [hpassed.length_eq, List.length_append, List.length_append] at hlength
      have hpos := List.length_pos_iff.mpr hne
      exact hlevel hplace hsame (by omega)
  | error refusal after =>
      rw [hread] at h hend
      obtain ⟨passed, stuck, hpassed, hsame, hreached, -⟩ := h
      obtain ⟨other, hother, hindex⟩ := hend
      have hbehind := (hpass.append hother).index_eq hcounted
      rw [← hindex, hreached, hpassed.index_eq hcounted, List.length_append] at hbehind
      exact hlevel hpassed hsame (by omega)

theorem keepsLevel_expectKeyword {word : Keyword} :
    KeepsLevel [] tape before (ofReading (tape.expectKind (.keyword word))) := by
  refine keepsLevel_ofReading (fun token rest hread => ?_) fun _ => refusedAt_of_expectKind
  obtain ⟨hpass, rfl⟩ := reads_expectKeyword.mp hread
  exact ⟨[.keyword word], hpass, by simp [IsLevel, Token.IsMargin]⟩

theorem keepsLevel_expectIndent :
    KeepsLevel [.indent] tape before (ofReading (tape.expectKind (.layout .indent))) := by
  refine keepsLevel_ofReading (fun token rest hread => ?_) fun _ => refusedAt_of_expectKind
  obtain ⟨hpass, rfl⟩ := reads_expectLayout.mp hread
  exact ⟨[], hpass, by simp [IsLevel]⟩

/-! ## What a stage itself passes -/

theorem keepsLevel_line {inMethod : Bool} :
    KeepsLevel [] tape before (line source inMethod tape) :=
  keepsPlain_line.keepsLevel

theorem keepsLevel_suiteHead : KeepsLevel [.indent] tape before (suiteHead tape) := by
  unfold suiteHead
  refine (keepsPlain_ofReading staysPlain_expectNewline).keepsLevel.bind fun _ _ _ => ?_
  exact keepsLevel_expectIndent.map fun _ => rfl

theorem keepsLevel_conditionHead :
    KeepsLevel [] tape before (conditionHead source tape) := by
  refine KeepsPlain.keepsLevel ?_
  unfold conditionHead
  refine (keepsPlain_ofReading (staysPlain_expectKeyword (by decide))).bind fun _ _ _ => ?_
  refine (keepsPlain_inSetting fun _ => Expression.staysPlain_expression).bind fun _ _ _ => ?_
  refine (keepsPlain_ofReading staysPlain_expectSymbol).bind fun _ _ _ => ?_
  exact keepsPlain_pure rfl

theorem keepsLevel_elseHead (hcurrent : tape.current = .keyword .elseWord) :
    KeepsLevel [] tape before (elseHead tape) := by
  refine KeepsPlain.keepsLevel ?_
  unfold elseHead
  refine (keepsPlain_ofReading (staysPlain_advance (hcurrent ▸ by simp))).bind fun _ _ _ => ?_
  refine (keepsPlain_ofReading staysPlain_expectSymbol).bind fun _ _ _ => ?_
  exact keepsPlain_pure rfl

theorem keepsLevel_methodSignature : KeepsLevel [] tape before (methodSignature tape) := by
  refine KeepsPlain.keepsLevel ?_
  unfold methodSignature
  refine (keepsPlain_ofReading (staysPlain_expectKeyword (by decide))).bind fun _ _ _ => ?_
  refine (keepsPlain_ofReading staysPlain_expectName).bind fun _ _ _ => ?_
  refine (keepsPlain_ofReading staysPlain_expectSymbol).bind fun _ _ _ => ?_
  refine (keepsPlain_ofReading staysPlain_parameters).bind fun _ _ _ => ?_
  refine (keepsPlain_ofReading staysPlain_expectSymbol).bind fun _ _ _ => ?_
  refine (keepsPlain_ofReading staysPlain_expectSymbol).bind fun _ _ _ => ?_
  exact keepsPlain_pure rfl

theorem keepsLevel_classHead : KeepsLevel [.indent] tape before (classHead source tape) := by
  unfold classHead
  refine keepsLevel_expectKeyword.bind fun _ _ _ => ?_
  refine (keepsPlain_ofReading staysPlain_expectName).keepsLevel.bind fun _ _ _ => ?_
  refine keepsPlain_parentOf.keepsLevel.bind fun _ _ _ => ?_
  refine (keepsPlain_ofReading staysPlain_expectSymbol).keepsLevel.bind fun _ _ _ => ?_
  refine (keepsPlain_ofReading staysPlain_expectNewline).keepsLevel.bind fun _ _ _ => ?_
  exact keepsLevel_expectIndent.map fun _ => rfl

end Offside.Statement
