import Offside.Proofs.Ending.Tape
import Offside.Proofs.Scanning.Request

/-!
# Lazy and eager delivery

A cursor loads a batch when it has to, and whoever works with it may look at the current token,
compare it with a wanted one or move on in any order.  `Cursor.Yields` says what comes of moving on
alone, from the current token to the end of the source or to the first fault of the scanner.

Every cursor of a text yields the tape of the text (`Shows.yields`), which is laid out eagerly,
batch after batch.  Other operations make no difference: what a cursor shows after some of them is
the tape that is left behind as many tokens as it was moved on by (`Shows.performAll`).  So the
current token is found by counting, and a fault of the scanner comes from the one operation that
moves past the last token (`delivers_eagerly`).
-/

namespace Offside

/-- Faults that the scanner meets.  All others concern tokens that were delivered. -/
def SourceCause.isOfScanner : SourceCause → Bool
  | unexpectedCharacter _ | overlongNumber => true
  | mismatch _ _ | unexpectedToken _ | unclosedBlock | returnOutsideMethod | undefinedBase _
  | notClass _ | wrongStrArity => false

/-- What can be done with a cursor. -/
inductive Operation
  /-- Looking at the current token. -/
  | look
  | ask (request : Request)
deriving DecidableEq, Repr

/-- The operations that move on. -/
def Operation.moves : Operation → Bool
  | look | ask (.expect _ _) => false
  | ask .next | ask (.expectNext _ _) => true

/-- The tape that is left behind so many tokens.  Nobody moves past the last one. -/
def Tape.behind : Nat → Tape → Tape
  | count + 1, more _ _ rest => rest.behind count
  | _, tape => tape

namespace Cursor

/-- What an operation answers, and the cursor that it leaves. -/
def perform (cursor : Cursor) : Operation → Except ExpectFault Reply × Cursor
  | .look => (.ok (.token cursor.current.token), cursor)
  | .ask .next => ((cursor.next.1.map Reply.token).mapError .source, cursor.next.2)
  | .ask (.expect kind wanted) => (cursor.expect kind wanted, cursor)
  | .ask (.expectNext kind wanted) => cursor.expectNext kind wanted

/-- The cursor that some operations leave. -/
def performAll (cursor : Cursor) (operations : List Operation) : Cursor :=
  operations.foldl (fun cursor operation => (cursor.perform operation).2) cursor

/-- The fault of the scanner that an operation meets, if it meets one. -/
def scanFault? (cursor : Cursor) (operation : Operation) : Option SourceFault :=
  match (cursor.perform operation).1 with
  | .error (.source fault) => if fault.cause.isOfScanner then some fault else none
  | _ => none

/-- No operation of these meets a fault of the scanner. -/
def Unfaulted (cursor : Cursor) : List Operation → Prop
  | [] => True
  | operation :: operations =>
    cursor.scanFault? operation = none ∧ (cursor.perform operation).2.Unfaulted operations

/-- The tokens that a cursor comes to when it is moved on again and again, each with the line that
the cursor names for it, and the fault that ends them, unless they end with the end of the
source. -/
inductive Yields : Cursor → List Located → Option SourceFault → Prop
  | ended {cursor : Cursor} (hcurrent : cursor.current.token = .eof) :
      Yields cursor [cursor.current] none
  | broken {cursor : Cursor} {fault : SourceFault} (hcurrent : cursor.current.token ≠ .eof)
      (hnext : cursor.next.1 = .error fault) : Yields cursor [cursor.current] (some fault)
  | more {cursor : Cursor} {token : Token} {tokens : List Located} {ending : Option SourceFault}
      (hcurrent : cursor.current.token ≠ .eof) (hnext : cursor.next.1 = .ok token)
      (hrest : Yields cursor.next.2 tokens ending) :
      Yields cursor (cursor.current :: tokens) ending

end Cursor

/-! ## Moving on by one token -/

theorem Scanner.isOfScanner_of_load {scanner next : Scanner} {fault : SourceFault}
    (h : scanner.load = .fault fault next) : fault.cause.isOfScanner = true := by
  cases loads_iff.mpr h <;> rfl

namespace Cursor

variable {cursor : Cursor} {tape : Tape} {operation : Operation} {operations : List Operation}
  {fault : SourceFault} {kind : Kind} {wanted : Option (Option Payload)}

/-- Where a cursor moves on to, token by token. -/
theorem next_cases (cursor : Cursor) :
    (cursor.current.token = .eof ∧ cursor.next = (.ok .eof, cursor)) ∨
      (∃ moved, cursor.next = (.ok moved.current.token, moved) ∧
        moved.passed = cursor.current :: cursor.passed) ∨
      ∃ fault moved, cursor.next = (.error fault, moved) ∧ fault.cause.isOfScanner = true ∧
        moved.current = cursor.current ∧ moved.passed = cursor.passed := by
  cases hpending : cursor.pending with
  | cons upcoming later =>
      refine .inr (.inl
        ⟨⟨cursor.current :: cursor.passed, upcoming, later, cursor.scanner⟩, ?_, rfl⟩)
      rw [next, hpending]
  | nil =>
      by_cases hcurrent : cursor.current.token = .eof
      · refine .inl ⟨hcurrent, ?_⟩
        rw [next, hpending]
        exact if_pos hcurrent
      · rw [next_of_load hpending hcurrent]
        cases hload : cursor.scanner.load with
        | batch first more after =>
            exact .inr (.inl ⟨⟨cursor.current :: cursor.passed, first, more, after⟩, rfl, rfl⟩)
        | last closing line =>
            refine .inr (.inl ⟨_, rfl, ?_⟩)
            cases closing <;> rfl
        | fault fault after =>
            exact .inr (.inr ⟨fault, _, rfl, Scanner.isOfScanner_of_load hload, rfl, rfl⟩)

/-- A fault of the scanner leaves a cursor on its token. -/
theorem next_of_error (h : cursor.next.1 = .error fault) :
    fault.cause.isOfScanner = true ∧ cursor.next.2.current = cursor.current ∧
      cursor.next.2.passed = cursor.passed := by
  obtain ⟨-, hnext⟩ | ⟨moved, hnext, -⟩ | ⟨found, moved, hnext, hfound⟩ := cursor.next_cases
  · rw [hnext] at h
    cases h
  · rw [hnext] at h
    cases h
  · rw [hnext] at h ⊢
    cases h
    exact hfound

/-- A cursor that is not at the end of the source passes the token that it stood on. -/
theorem next_of_ok {token : Token} (hcurrent : cursor.current.token ≠ .eof)
    (h : cursor.next.1 = .ok token) :
    cursor.next.2.passed = cursor.current :: cursor.passed := by
  obtain ⟨heof, -⟩ | ⟨moved, hnext, hpassed⟩ | ⟨fault, moved, hnext, -⟩ := cursor.next_cases
  · exact absurd heof hcurrent
  · rw [hnext]
    exact hpassed
  · rw [hnext] at h
    cases h

/-- What is delivered is the token that the cursor then stands on. -/
theorem current_of_next {token : Token} (h : cursor.next.1 = .ok token) :
    cursor.next.2.current.token = token := by
  obtain ⟨heof, hnext⟩ | ⟨moved, hnext, -⟩ | ⟨fault, moved, hnext, -⟩ := cursor.next_cases
  · rw [hnext] at h ⊢
    cases h
    exact heof
  · rw [hnext] at h ⊢
    exact Except.ok.inj h
  · rw [hnext] at h
    cases h

/-! ## Operations -/

/-- What an operation leaves: the cursor itself, or the cursor that was moved on by one token,
whatever else is asked of that token. -/
theorem perform_snd (cursor : Cursor) (operation : Operation) :
    (cursor.perform operation).2 = if operation.moves then cursor.next.2 else cursor := by
  cases operation with
  | look => rfl
  | ask request =>
      cases request with
      | next => rfl
      | expect kind wanted => rfl
      | expectNext kind wanted => exact cursor.expectNext_snd kind wanted

/-- Comparing the current token reports no fault of the scanner. -/
theorem isOfScanner_of_expect (h : cursor.expect kind wanted = .error (.source fault)) :
    fault.cause.isOfScanner = false := by
  unfold expect at h
  dsimp only at h
  repeat' split at h
  all_goals cases h
  all_goals rfl

theorem scanFault?_of_expect (cursor : Cursor) (kind : Kind) (wanted : Option (Option Payload)) :
    (match cursor.expect kind wanted with
      | .error (.source fault) => if fault.cause.isOfScanner then some fault else none
      | _ => none) = none := by
  split
  · next h =>
      rw [isOfScanner_of_expect h]
      rfl
  · rfl

/-- The operations that move on meet the fault behind the current token, and the others none. -/
theorem scanFault?_eq_some_iff :
    cursor.scanFault? operation = some fault ↔
      operation.moves = true ∧ cursor.next.1 = .error fault := by
  cases operation with
  | look => simp [scanFault?, perform, Operation.moves]
  | ask request =>
      cases request with
      | expect kind wanted =>
          have hnone : cursor.scanFault? (.ask (.expect kind wanted)) = none :=
            cursor.scanFault?_of_expect kind wanted
          simp [hnone, Operation.moves]
      | next =>
          cases hnext : cursor.next.1 with
          | ok token => simp [scanFault?, perform, hnext, Except.map, Except.mapError]
          | error found =>
              have hscanner := (next_of_error hnext).1
              simp [scanFault?, perform, hnext, Except.map, Except.mapError, hscanner,
                Operation.moves]
      | expectNext kind wanted =>
          cases hnext : cursor.next with
          | mk found moved =>
              cases found with
              | ok token =>
                  have hnone := moved.scanFault?_of_expect kind wanted
                  simp [scanFault?, perform, expectNext, hnext, hnone]
              | error found =>
                  have hscanner := (next_of_error (congrArg Prod.fst hnext)).1
                  simp [scanFault?, perform, expectNext, hnext, hscanner, Operation.moves]

/-- The fault is the answer. -/
theorem perform_of_scanFault? (h : cursor.scanFault? operation = some fault) :
    (cursor.perform operation).1 = .error (.source fault) := by
  unfold scanFault? at h
  split at h
  · next found hanswer =>
      split at h
      · cases h
        exact hanswer
      · cases h
  · cases h

/-- An operation that moves on and meets no fault of the scanner comes to a token. -/
theorem exists_next_of_scanFault? (hmoves : operation.moves = true)
    (h : cursor.scanFault? operation = none) :
    ∃ moved, cursor.next = (.ok moved.current.token, moved) := by
  cases hnext : cursor.next with
  | mk found moved =>
      cases found with
      | ok token =>
          have hcurrent := current_of_next (congrArg Prod.fst hnext)
          rw [hnext] at hcurrent
          exact ⟨moved, by rw [← hcurrent]⟩
      | error fault =>
          rw [scanFault?_eq_some_iff.mpr ⟨hmoves, congrArg Prod.fst hnext⟩] at h
          cases h

/-! ## Tapes that are left behind -/

end Cursor

namespace Tape

variable {tape : Tape}

@[simp] theorem behind_zero (tape : Tape) : tape.behind 0 = tape := by
  cases tape <;> rfl

/-- A tape begins with its current token. -/
theorem exists_tokens_eq_cons (tape : Tape) :
    ∃ later, tape.tokens = ⟨tape.current, tape.place.line⟩ :: later := by
  cases tape with
  | ended place beforeLast => exact ⟨[], rfl⟩
  | broken token place fault => exact ⟨[], rfl⟩
  | more token place rest => exact ⟨rest.tokens, rfl⟩

@[simp] theorem behind_add (tape : Tape) (first second : Nat) :
    (tape.behind first).behind second = tape.behind (first + second) := by
  induction first generalizing tape with
  | zero => rw [behind_zero, Nat.zero_add]
  | succ first ih =>
      rw [Nat.succ_add]
      cases tape with
      | ended place beforeLast => cases second <;> rfl
      | broken token place fault => cases second <;> rfl
      | more token place rest => exact ih rest

@[simp] theorem length_behind (tape : Tape) (count : Nat) :
    (tape.behind count).length = tape.length - count := by
  induction count generalizing tape with
  | zero => rw [behind_zero, Nat.sub_zero]
  | succ count ih =>
      cases tape with
      | ended place beforeLast => exact (Nat.zero_sub _).symm
      | broken token place fault => exact (Nat.zero_sub _).symm
      | more token place rest =>
          rw [behind, ih, length]
          omega

theorem Laid.behind (h : tape.Laid) (count : Nat) : (tape.behind count).Laid := by
  induction count generalizing tape with
  | zero => rwa [behind_zero]
  | succ count ih =>
      cases tape with
      | ended place beforeLast => exact h
      | broken token place fault => exact h
      | more token place rest => exact ih h.2

@[simp] theorem fault?_behind (tape : Tape) (count : Nat) :
    (tape.behind count).fault? = tape.fault? := by
  induction count generalizing tape with
  | zero => rw [behind_zero]
  | succ count ih =>
      cases tape with
      | ended place beforeLast => rfl
      | broken token place fault => rfl
      | more token place rest => exact ih rest

/-- What is left behind some tokens are the tokens that follow them. -/
@[simp] theorem tokens_behind (tape : Tape) (count : Nat) :
    (tape.behind count).tokens = tape.tokens.drop (min count tape.length) := by
  induction count generalizing tape with
  | zero => rw [behind_zero, Nat.zero_min, List.drop_zero]
  | succ count ih =>
      cases tape with
      | ended place beforeLast =>
          rw [length, Nat.min_zero, List.drop_zero]
          rfl
      | broken token place fault =>
          rw [length, Nat.min_zero, List.drop_zero]
          rfl
      | more token place rest =>
          rw [behind, ih, length, Nat.succ_min_succ, tokens, List.drop_succ_cons]

end Tape

/-! ## Runs of operations -/

namespace Cursor

variable {cursor : Cursor} {tape : Tape} {operation : Operation} {operations : List Operation}
  {fault : SourceFault}

theorem Shows.tokens_eq (h : cursor.Shows tape) :
    ∃ more, tape.tokens = cursor.current :: more := by
  rw [h.standsOn.current]
  exact tape.exists_tokens_eq_cons

/-- Moving on again and again goes over the whole tape. -/
theorem Shows.yields (h : cursor.Shows tape) (hlaid : tape.Laid) :
    cursor.Yields tape.tokens tape.fault? := by
  induction tape generalizing cursor with
  | ended place beforeLast =>
      have hyields := Yields.ended h.token_eq
      rwa [h.1.current] at hyields
  | broken token place fault =>
      have hyields := Yields.broken (h.token_eq ▸ hlaid) h.2
      rwa [h.1.current] at hyields
  | more token place rest ih =>
      obtain ⟨found, hnext, hrest⟩ := h.2
      have hyields := Yields.more (h.token_eq ▸ hlaid.1.1) hnext (ih hrest hlaid.2)
      rwa [h.1.current] at hyields

/-- The fault behind the current token is the one at the end of a tape that holds no other
token. -/
theorem Shows.next_eq_error_iff (h : cursor.Shows tape) :
    cursor.next.1 = .error fault ↔ tape.fault? = some fault ∧ tape.length = 0 := by
  cases tape with
  | ended place beforeLast => simp [h.2, Tape.fault?]
  | broken token place found => simp [h.2, Tape.fault?, Tape.length]
  | more token place rest =>
      obtain ⟨found, hnext, -⟩ := h.2
      simp [hnext, Tape.length]

/-- A cursor that shows a tape has gone so far, to where another one stands. -/
structure Advances (cursor : Cursor) (tape : Tape) (count : Nat) (here : Cursor) : Prop where
  /-- What is left behind so many tokens is still to come. -/
  rest : here.Shows (tape.behind count)
  /-- These tokens have been passed. -/
  passed : here.passed = (tape.tokens.take (min count tape.length)).reverse ++ cursor.passed
  /-- Nobody passes the last token before a fault. -/
  bounded : tape.fault? ≠ none → count ≤ tape.length

theorem Shows.advances_zero (h : cursor.Shows tape) : cursor.Advances tape 0 cursor where
  rest := by rwa [Tape.behind_zero]
  passed := by
    rw [Nat.zero_min]
    rfl
  bounded _ := Nat.zero_le _

theorem Advances.trans {middle here : Cursor} {first second : Nat}
    (hfirst : cursor.Advances tape first middle)
    (hsecond : middle.Advances (tape.behind first) second here) :
    cursor.Advances tape (first + second) here where
  rest := by
    rw [← Tape.behind_add]
    exact hsecond.rest
  passed := by
    have hcount : min first tape.length + min second (tape.length - first) =
        min (first + second) tape.length := by
      omega
    rw [hsecond.passed, hfirst.passed, Tape.length_behind, Tape.tokens_behind,
      ← List.append_assoc, ← List.reverse_append, ← List.take_add, hcount]
  bounded hfault := by
    have hle := hfirst.bounded hfault
    have hle' := hsecond.bounded (by rwa [Tape.fault?_behind])
    rw [Tape.length_behind] at hle'
    omega

/-- Moving on where the scanner meets no fault. -/
theorem Shows.advances_one (h : cursor.Shows tape) (hlaid : tape.Laid)
    (hfault : ∀ fault, cursor.next.1 ≠ .error fault) :
    cursor.Advances tape 1 cursor.next.2 := by
  cases tape with
  | ended place beforeLast =>
      rw [h.2]
      exact ⟨h, rfl, fun hsome => absurd rfl hsome⟩
  | broken token place fault => exact absurd h.2 (hfault fault)
  | more token place rest =>
      obtain ⟨found, hnext, hrest⟩ := h.2
      have hpassed := next_of_ok (h.token_eq ▸ hlaid.1.1) hnext
      rw [h.1.current] at hpassed
      refine ⟨?_, ?_, fun _ => Nat.succ_pos _⟩
      · rwa [Tape.behind, Tape.behind_zero]
      · rw [hpassed, Tape.length, Nat.min_eq_left (Nat.succ_pos _)]
        rfl

/-- An operation that meets no fault of the scanner moves a cursor by one token or not at all. -/
theorem Shows.perform (h : cursor.Shows tape) (hlaid : tape.Laid)
    (hfault : cursor.scanFault? operation = none) :
    cursor.Advances tape (if operation.moves then 1 else 0) (cursor.perform operation).2 := by
  rw [perform_snd]
  cases hmoves : operation.moves with
  | false => exact h.advances_zero
  | true =>
      refine h.advances_one hlaid fun fault hnext => ?_
      rw [scanFault?_eq_some_iff.mpr ⟨hmoves, hnext⟩] at hfault
      cases hfault

/-- Where a cursor stands after some operations depends on how many of them moved on. -/
theorem Shows.performAll (h : cursor.Shows tape) (hlaid : tape.Laid)
    (hoperations : cursor.Unfaulted operations) :
    cursor.Advances tape (operations.countP Operation.moves) (cursor.performAll operations) := by
  induction operations generalizing cursor tape with
  | nil => exact h.advances_zero
  | cons operation operations ih =>
      obtain ⟨hfault, hrest⟩ := hoperations
      have hfirst := h.perform hlaid hfault
      rw [List.countP_cons, Nat.add_comm]
      exact hfirst.trans (ih hfirst.rest (hlaid.behind _) hrest)

/-- A first cursor has passed no token. -/
theorem passed_ofString {text : String} (h : ofString text = .ok cursor) : cursor.passed = [] := by
  unfold ofString ofScanner at h
  split at h
  · cases h
    rfl
  · next closing line hload =>
      cases h
      cases closing <;> rfl
  · cases h

/-- The first cursor of a text shows the tape of the text. -/
theorem exists_shows_of_ofString {text : String} (h : ofString text = .ok cursor) :
    ∃ tape, Tape.ofString text = .ok tape ∧ cursor.Shows tape ∧ tape.Laid := by
  obtain ⟨fault, hfault, -⟩ | ⟨first, tape, hfirst, htape, hshows, -⟩ :=
    shows_of_ofScanner (.ofString text)
  · rw [ofString, hfault] at h
    cases h
  · obtain rfl : first = cursor := Except.ok.inj (hfirst.symm.trans h)
    exact ⟨tape, htape, hshows, Tape.laid_of_ofString htape⟩

/-- A cursor stands where it should, after so many operations that moved on. -/
structure InStep (tape : Tape) (moves : Nat) (here : Cursor) : Prop where
  /-- The current token and its line are found by counting.  Nothing comes behind the last one. -/
  current : tape.tokens[min moves (tape.tokens.length - 1)]? = some here.current
  /-- The tokens before it were passed one after the other, each of them once. -/
  passed : here.passed.reverse = tape.tokens.take (min moves (tape.tokens.length - 1))
  /-- Other operations leave the cursor as it is. -/
  stays : ∀ operation : Operation, operation.moves = false → (here.perform operation).2 = here
  /-- A fault of the scanner is met by moving past the last token, and by nothing else. -/
  faults : ∀ operation fault, here.scanFault? operation = some fault ↔
    operation.moves = true ∧ tape.fault? = some fault ∧ moves + 1 = tape.tokens.length
  /-- It is the answer then, and the cursor stays on its token. -/
  stuck : ∀ operation fault, here.scanFault? operation = some fault →
    (here.perform operation).1 = .error (.source fault) ∧
      (here.perform operation).2.current = here.current ∧
      (here.perform operation).2.passed = here.passed
  /-- Otherwise moving on answers with the token that is then the current one. -/
  delivers : here.scanFault? (.ask .next) = none →
    (here.perform (.ask .next)).1 = .ok (.token (here.perform (.ask .next)).2.current.token)
  /-- Where a token is wanted, that token is compared, and whatever the answer is, the cursor has
  moved as it does without a wish. -/
  compares : ∀ kind wanted, here.scanFault? (.ask (.expectNext kind wanted)) = none →
    (here.perform (.ask (.expectNext kind wanted))).2 = (here.perform (.ask .next)).2 ∧
      (here.perform (.ask (.expectNext kind wanted))).1 =
        (here.perform (.ask (.expectNext kind wanted))).2.expect kind wanted

/-- What the operations of a cursor answer, wherever it stands. -/
theorem Advances.inStep {here : Cursor} {moves : Nat} (h : cursor.Advances tape moves here)
    (hstart : cursor.passed = []) : InStep tape moves here where
  current := by
    obtain ⟨more, htokens⟩ := h.rest.tokens_eq
    rw [Tape.tokens_behind] at htokens
    rw [tape.length_tokens, Nat.add_sub_cancel, ← List.head?_drop, htokens]
    rfl
  passed := by
    rw [h.passed, hstart, List.append_nil, List.reverse_reverse, tape.length_tokens,
      Nat.add_sub_cancel]
  stays := by
    intro operation hstays
    rw [perform_snd, hstays]
    exact if_neg Bool.false_ne_true
  faults := by
    intro operation fault
    rw [scanFault?_eq_some_iff, h.rest.next_eq_error_iff, Tape.fault?_behind,
      Tape.length_behind, tape.length_tokens]
    refine and_congr_right fun _ => and_congr_right fun hfault => ?_
    have hle := h.bounded (by rw [hfault]; exact Option.some_ne_none fault)
    omega
  stuck := by
    intro operation fault hfault
    obtain ⟨hmoves, hnext⟩ := scanFault?_eq_some_iff.mp hfault
    rw [perform_snd, hmoves]
    exact ⟨perform_of_scanFault? hfault, (next_of_error hnext).2⟩
  delivers := by
    intro hfault
    obtain ⟨moved, hnext⟩ := exists_next_of_scanFault? rfl hfault
    rw [perform, hnext]
    rfl
  compares := by
    intro kind wanted hfault
    obtain ⟨moved, hnext⟩ := exists_next_of_scanFault? rfl hfault
    rw [perform_snd, perform_snd, perform, expectNext, hnext]
    exact ⟨rfl, rfl⟩

/-- A cursor delivers lazily what the tape of its text holds, laid out eagerly: moving on alone
yields these tokens and this fault, and any other operations, as long as none of them meets a fault
of the scanner, keep in step with it. -/
theorem delivers_eagerly {text : String} (hcursor : ofString text = .ok cursor) :
    ∃ tape, Tape.ofString text = .ok tape ∧ cursor.Yields tape.tokens tape.fault? ∧
      ∀ operations, cursor.Unfaulted operations →
        InStep tape (operations.countP Operation.moves) (cursor.performAll operations) := by
  obtain ⟨tape, htape, hshows, hlaid⟩ := exists_shows_of_ofString hcursor
  refine ⟨tape, htape, hshows.yields hlaid, fun operations hoperations => ?_⟩
  exact (hshows.performAll hlaid hoperations).inStep (passed_ofString hcursor)

/-- Operations that go into a change of margin, with a wish on the way that is not met. -/
def sampleOperations : List Operation :=
  [.ask .next, .look, .ask .next, .ask (.expect .number none), .ask (.expectNext .string none),
    .ask .next, .ask .next]

/-- The second mark of a margin is reached in five moves, and behind the token that follows it the
scanner meets a fault. -/
theorem delivers_eagerly_sample :
    ∃ cursor, ofString "if x:\n    y $" = .ok cursor ∧
      ∃ tape, Tape.ofString "if x:\n    y $" = .ok tape ∧
        InStep tape 5 (cursor.performAll sampleOperations) ∧
        (cursor.performAll sampleOperations).current = ⟨.indent, 2⟩ ∧
        InStep tape 6 (cursor.performAll (.ask .next :: sampleOperations)) ∧
        (cursor.performAll (.ask .next :: sampleOperations)).scanFault? (.ask .next) =
          some ⟨.unexpectedCharacter '$', 2⟩ := by
  have hcursor : ofString "if x:\n    y $" =
      .ok ⟨[], ⟨.keyword .ifWord, 1⟩, [], ⟨" x:\n    y $".toList, 1, 0, false⟩⟩ := by
    rfl
  obtain ⟨tape, htape, -, hsteps⟩ := delivers_eagerly hcursor
  refine ⟨_, hcursor, tape, htape, ?_, rfl, ?_, rfl⟩
  · exact hsteps sampleOperations ⟨rfl, rfl, rfl, rfl, rfl, rfl, rfl, trivial⟩
  · exact hsteps (.ask .next :: sampleOperations)
      ⟨rfl, rfl, rfl, rfl, rfl, rfl, rfl, rfl, trivial⟩

end Cursor

end Offside
