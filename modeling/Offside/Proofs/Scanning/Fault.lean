import Offside.Proofs.Scanning.Delivery

/-!
# Behind a fault of the scanner

A fault of the scanner leaves a cursor on its token, but the scanner has moved, so what comes next
depends on the fault (`Cursor.behind_scanFault`).

* **Unexpected characters** are not passed over.  Moving on comes back to the character, and the
  fault is the same each time.  The blanks before it are behind the scanner, however: where the
  character begins a logical line, the line seems to have no margin the second time, and the marks
  that close all open blocks are delivered before the fault is met again.
* **Numbers that are too long** are passed over.  The scanner stands behind the last digit, and the
  line goes on from there as if the digits had not been written.

So a fault need not come back, and where it comes back other tokens may come first
(`Cursor.exists_token_behind_scanFault`).
-/

namespace Offside

namespace Cursor

/-- What a cursor comes to behind a fault that comes back, after so many operations that moved on:
the marks that are delivered first, one after the other, and from then on the fault. -/
structure ComesBack (fault : SourceFault) (token : Located) (marks : List Located) (moves : Nat)
    (there : Cursor) : Prop where
  /-- The current token is one of the marks, as soon as the cursor has moved. -/
  current : (token :: marks)[min moves marks.length]? = some there.current
  /-- The next mark is what moving on delivers. -/
  delivers : ∀ mark, marks[moves]? = some mark → there.next.1 = .ok mark.token
  /-- Behind the last mark whatever moves on meets the fault, and leaves the cursor as it is. -/
  faults : marks.length ≤ moves → ∀ operation : Operation, operation.moves = true →
    there.perform operation = (.error (.source fault), there)

/-- Moving on from a cursor comes to these marks and then to a fault that leaves it as it is. -/
inductive LeadsTo (fault : SourceFault) : Cursor → List Located → Prop
  | here {cursor : Cursor} (hnext : cursor.next = (.error fault, cursor)) :
      LeadsTo fault cursor []
  | behind {cursor moved : Cursor} {marks : List Located}
      (hnext : cursor.next = (.ok moved.current.token, moved)) (hrest : LeadsTo fault moved marks) :
      LeadsTo fault cursor (moved.current :: marks)

/-- The marks that a fault at the start of a line brings about: they close the blocks that are
open behind the tokens delivered so far. -/
def dedents (cursor : Cursor) (line : Nat) : List Located :=
  if cursor.current.token = .newline then
    List.replicate (cursor.words.count .indent - cursor.words.count .dedent) ⟨.dedent, line⟩
  else []

variable {cursor : Cursor} {fault : SourceFault} {marks : List Located} {operation : Operation}
  {scanner : Scanner}

/-! ## Coming back to a fault -/

/-- Operations go along the marks as far as they move on, and stay behind the last one. -/
theorem LeadsTo.performAll (h : LeadsTo fault cursor marks) (operations : List Operation) :
    LeadsTo fault (cursor.performAll operations)
        (marks.drop (operations.countP Operation.moves)) ∧
      (cursor.current :: marks)[min (operations.countP Operation.moves) marks.length]? =
        some (cursor.performAll operations).current := by
  induction operations generalizing cursor marks with
  | nil => exact ⟨h, congrArg ((cursor.current :: marks)[·]?) (Nat.zero_min _)⟩
  | cons operation operations ih =>
      have hfirst : cursor.performAll (operation :: operations) =
          (cursor.perform operation).2.performAll operations := rfl
      rw [hfirst, perform_snd, List.countP_cons]
      cases operation.moves with
      | false => exact ih h
      | true =>
          rw [if_pos rfl, if_pos rfl]
          cases h with
          | here hnext =>
              rw [hnext]
              simpa using ih (.here hnext)
          | behind hnext hrest =>
              rw [hnext, List.length_cons, Nat.succ_min_succ]
              exact ih hrest

/-- What is met on the way along the marks. -/
theorem LeadsTo.comesBack (h : LeadsTo fault cursor marks) (operations : List Operation) :
    ComesBack fault cursor.current marks (operations.countP Operation.moves)
      (cursor.performAll operations) := by
  obtain ⟨hrest, hcurrent⟩ := h.performAll operations
  refine ⟨hcurrent, fun mark hmark => ?_, fun hmoves operation hoperation => ?_⟩
  · obtain ⟨hlt, rfl⟩ := List.getElem?_eq_some_iff.mp hmark
    rw [List.drop_eq_getElem_cons hlt] at hrest
    generalize hmark : marks[operations.countP Operation.moves] = mark at hrest
    cases hrest with
    | behind hnext hrest => rw [hnext]
  · rw [List.drop_of_length_le hmoves] at hrest
    cases hrest with
    | here hnext =>
        refine Prod.ext ?_ ?_
        · exact perform_of_scanFault?
            (scanFault?_eq_some_iff.mpr ⟨hoperation, congrArg Prod.fst hnext⟩)
        · rw [perform_snd, hoperation, if_pos rfl, hnext]

/-! ## Faults of the scanner -/

/-- Where tokens are pending that do not end the source, and loading meets a fault that leaves the
scanner as it is, moving on goes over them and comes to the fault. -/
theorem leadsTo_pending {passed pending : List Located} {current : Located}
    (hload : scanner.load = .fault fault scanner)
    (heof : ∀ located ∈ current :: pending, located.token ≠ .eof) :
    LeadsTo fault ⟨passed, current, pending, scanner⟩ pending := by
  induction pending generalizing passed current with
  | nil =>
      refine .here ?_
      rw [next_of_load rfl (heof current List.mem_cons_self)]
      exact congrArg (receive _) hload
  | cons upcoming later ih =>
      have hrest := @ih (current :: passed) upcoming fun located hmem =>
        heof located (List.mem_cons_of_mem _ hmem)
      exact .behind rfl hrest

end Cursor

namespace Scanner

variable {first : Char} {rest : List Char} {line depth : Nat} {lineStart : Bool}

theorem gap_of_stray (hfirst : first ∉ [' ', '\r', '#']) (hfeed : first ≠ '\n') :
    gap ⟨first :: rest, line, depth, lineStart⟩ = ⟨0, line, first :: rest⟩ :=
  Gap.skip_of_not_mem hfirst fun heq => absurd heq hfeed

/-- A scanner that stands on a character that begins no token stays there, unless marks have to be
loaded first. -/
theorem load_of_stray (hfirst : first ∉ [' ', '\r', '#']) (hfeed : first ≠ '\n')
    (hread : Lexeme.read first rest = .stray) (hdepth : lineStart = true → depth = 0) :
    load ⟨first :: rest, line, depth, lineStart⟩ =
      .fault ⟨.unexpectedCharacter first, line⟩ ⟨first :: rest, line, depth, lineStart⟩ := by
  have hgap := @gap_of_stray first rest line depth lineStart hfirst hfeed
  have hlevel : lineStart = true →
      (gap ⟨first :: rest, line, depth, lineStart⟩).blanks / indentWidth = depth := by
    intro hstart
    rw [hgap, hdepth hstart]
    exact Nat.zero_div _
  have hload := (Loads.stray (congrArg Gap.rest hgap) hlevel hfeed hread).eq
  rwa [hgap] at hload

/-- The marks close all blocks, because the blanks before the character are gone. -/
theorem load_of_stray_succ (hfirst : first ∉ [' ', '\r', '#']) (hfeed : first ≠ '\n') :
    load ⟨first :: rest, line, depth + 1, true⟩ =
      .batch ⟨.dedent, line⟩ (List.replicate depth ⟨.dedent, line⟩)
        ⟨first :: rest, line, 0, false⟩ := by
  have hgap := @gap_of_stray first rest line (depth + 1) true hfirst hfeed
  have hlevel : (gap ⟨first :: rest, line, depth + 1, true⟩).blanks / indentWidth ≠ depth + 1 := by
    rw [hgap, Nat.zero_div]
    exact (Nat.succ_ne_zero depth).symm
  have hload := (Loads.shift (congrArg Gap.rest hgap) rfl hlevel).eq
  rwa [hgap, Nat.zero_div] at hload

end Scanner

/-- What is too long is a run of digits, which is passed over. -/
theorem Lexeme.digits_of_read {first : Char} {rest after : List Char}
    (h : read first rest = .overlong after) :
    ∃ digits, first :: rest = digits ++ after ∧ (∀ digit ∈ digits, digit.isDigit = true) ∧
      Decimal.digitLimit < digits.length ∧
      ∀ character ∈ after.head?, character.isDigit = false := by
  unfold read at h
  split at h
  · next hdigit =>
      dsimp only at h
      split at h
      · cases h
      · next hvalue =>
          cases h
          refine ⟨first :: rest.takeWhile Char.isDigit, ?_, ?_, ?_, ?_⟩
          · rw [List.cons_append, List.takeWhile_append_dropWhile]
          · exact List.forall_mem_cons.mpr ⟨hdigit, fun digit hmem => List.mem_takeWhile_imp hmem⟩
          · exact (Decimal.read?_eq_none_iff _).mp hvalue
          · exact fun character hcharacter => eq_false_of_head?_dropWhile hcharacter
  · split at h
    · split at h <;> cases h
    · split at h
      · split at h <;> cases h
      · split at h
        · cases h
        · split at h <;> cases h

namespace Cursor

variable {cursor : Cursor} {fault : SourceFault} {operation : Operation}

/-- A fault of the scanner is met by loading, where no token is pending. -/
theorem load_of_next_eq_error (h : cursor.next.1 = .error fault) :
    cursor.pending = [] ∧ cursor.current.token ≠ .eof ∧ ∃ scanner,
      cursor.scanner.load = .fault fault scanner ∧ cursor.next.2 = { cursor with scanner } := by
  obtain ⟨passed, current, pending, earlier⟩ := cursor
  cases pending with
  | cons upcoming later => cases h
  | nil =>
      by_cases hcurrent : current.token = .eof
      · rw [next, if_pos hcurrent] at h
        cases h
      · rw [next_of_load rfl hcurrent] at h ⊢
        dsimp only at h ⊢
        cases hload : earlier.load with
        | batch first more after =>
            rw [hload] at h
            cases h
        | last closing line =>
            rw [hload] at h
            cases h
        | fault found scanner =>
            rw [hload] at h
            cases h
            exact ⟨rfl, hcurrent, scanner, rfl, rfl⟩

theorem Sound.performAll (h : cursor.Sound) (operations : List Operation) :
    (cursor.performAll operations).Sound := by
  induction operations generalizing cursor with
  | nil => exact h
  | cons operation operations ih =>
      have hfirst : (cursor.perform operation).2.Sound := by
        rw [perform_snd]
        split
        · exact h.next
        · exact h
      exact ih hfirst

/-- The scanner of a cursor that has to load knows how many blocks are open, and whether a line is
about to begin. -/
theorem Sound.dedents_eq (h : cursor.Sound) (hpending : cursor.pending = [])
    (hcurrent : cursor.current.token ≠ .eof) (line : Nat) :
    cursor.dedents line =
      if cursor.scanner.lineStart then List.replicate cursor.scanner.depth ⟨.dedent, line⟩
      else [] := by
  have hfits := h.fits hpending hcurrent
  have hlast : cursor.words.getLast? = some cursor.current.token := by
    rw [words_eq, hpending, List.map_nil, List.getLast?_concat]
  have hstart : cursor.scanner.lineStart = true ↔ cursor.current.token = .newline := by
    rw [hfits.lineStart, hlast]
    simp
  have hdepth : cursor.words.count .indent - cursor.words.count .dedent = cursor.scanner.depth := by
    rw [hfits.regular.balance, Nat.add_sub_cancel_left]
  unfold dedents
  rw [hdepth]
  exact if_congr hstart.symm rfl rfl

/-- A cursor on a character that begins no token comes to the marks that close the open blocks, if
the character begins a line, and then to the character again. -/
theorem leadsTo_of_stray {passed : List Located} {current : Located} {first : Char}
    {rest : List Char} {lineStart : Bool} {line depth : Nat} (hcurrent : current.token ≠ .eof)
    (hfirst : first ∉ [' ', '\r', '#']) (hfeed : first ≠ '\n')
    (hread : Lexeme.read first rest = .stray) :
    LeadsTo ⟨.unexpectedCharacter first, line⟩
      ⟨passed, current, [], ⟨first :: rest, line, depth, lineStart⟩⟩
      (if lineStart then List.replicate depth ⟨.dedent, line⟩ else []) := by
  have hone : ∀ located ∈ [current], located.token ≠ .eof := by
    intro located hmem
    rwa [List.mem_singleton.mp hmem]
  cases lineStart with
  | false =>
      exact leadsTo_pending
        (Scanner.load_of_stray hfirst hfeed hread (absurd · Bool.false_ne_true)) hone
  | true =>
      cases depth with
      | zero => exact leadsTo_pending (Scanner.load_of_stray hfirst hfeed hread fun _ => rfl) hone
      | succ depth =>
          -- the first of the marks is delivered, and the others are pending then
          have hmarks : ∀ located ∈ (⟨.dedent, line⟩ :: List.replicate depth ⟨.dedent, line⟩ :
              List Located), located.token ≠ .eof := by
            intro located hmem
            rw [← List.replicate_succ] at hmem
            rw [List.eq_of_mem_replicate hmem]
            exact (by decide : Token.dedent ≠ .eof)
          have hrest := @leadsTo_pending _ _ (current :: passed) _ _
            (@Scanner.load_of_stray first rest line 0 false hfirst hfeed hread
              (absurd · Bool.false_ne_true)) hmarks
          refine .behind ?_ hrest
          rw [next_of_load rfl hcurrent]
          exact congrArg (receive _) (Scanner.load_of_stray_succ hfirst hfeed)

/-- What is behind a fault of the scanner, wherever a cursor has been moved to. -/
theorem Sound.behind_fault (h : cursor.Sound) (hfault : cursor.next.1 = .error fault) :
    (∃ character, fault.cause = .unexpectedCharacter character ∧
        LeadsTo fault cursor.next.2 (cursor.dedents fault.line)) ∨
      fault.cause = .overlongNumber ∧ ∃ digits rest, cursor.scanner.gap.rest = digits ++ rest ∧
        (∀ digit ∈ digits, digit.isDigit = true) ∧ Decimal.digitLimit < digits.length ∧
        (∀ character ∈ rest.head?, character.isDigit = false) ∧
        cursor.next.2 = { cursor with
          scanner := ⟨rest, fault.line, cursor.scanner.depth, cursor.scanner.lineStart⟩ } := by
  obtain ⟨hpending, hcurrent, scanner, hload, hnext⟩ := load_of_next_eq_error hfault
  rw [hnext, h.dedents_eq hpending hcurrent]
  cases Scanner.loads_iff.mpr hload with
  | stray hrest hlevel hfeed hread =>
      obtain ⟨hfirst, -⟩ := Gap.not_mem_of_rest_skip hrest
      rw [hpending]
      exact .inl ⟨_, rfl, leadsTo_of_stray hcurrent hfirst hfeed hread⟩
  | overlong hrest hlevel hread =>
      obtain ⟨digits, hdigits, hdigit, hlength, hafter⟩ := Lexeme.digits_of_read hread
      exact .inr ⟨rfl, digits, _, hrest.trans hdigits, hdigit, hlength, hafter, rfl⟩

/-- A fault of the scanner leaves a cursor on its token.  Behind an unexpected character every
operation that moves on meets the same fault and changes nothing, except that first, if the
character begins a logical line, the marks are delivered that close the open blocks.  A number that
is too long is passed over: the scanner goes on directly behind its digits. -/
theorem behind_scanFault {text : String} {first : Cursor} (hfirst : ofString text = .ok first)
    (operations : List Operation)
    (hfault : (first.performAll operations).scanFault? operation = some fault) :
    let here := first.performAll operations
    let behind := (here.perform operation).2
    (here.perform operation).1 = .error (.source fault) ∧ behind.current = here.current ∧
      ((∃ character, fault.cause = .unexpectedCharacter character ∧ ∀ later : List Operation,
          ComesBack fault here.current (here.dedents fault.line)
            (later.countP Operation.moves) (behind.performAll later)) ∨
        fault.cause = .overlongNumber ∧ ∃ digits rest, here.scanner.gap.rest = digits ++ rest ∧
          (∀ digit ∈ digits, digit.isDigit = true) ∧ Decimal.digitLimit < digits.length ∧
          (∀ character ∈ rest.head?, character.isDigit = false) ∧
          behind = { here with
            scanner := ⟨rest, fault.line, here.scanner.depth, here.scanner.lineStart⟩ }) := by
  intro here behind
  obtain ⟨hmoves, hnext⟩ := scanFault?_eq_some_iff.mp hfault
  have hbehind : behind = here.next.2 := (perform_snd here operation).trans (if_pos hmoves)
  have hcurrent : behind.current = here.current := by
    rw [hbehind]
    exact (next_of_error hnext).2.1
  refine ⟨perform_of_scanFault? hfault, hcurrent, ?_⟩
  rw [hbehind] at hcurrent ⊢
  refine (((sound_ofString hfirst).performAll operations).behind_fault hnext).imp_left ?_
  rintro ⟨character, hcause, hleads⟩
  exact ⟨character, hcause, fun later => hcurrent ▸ hleads.comesBack later⟩

/-- In a block, a line that begins with an unexpected character seems to close the block first. -/
theorem behind_scanFault_sample :
    ∃ first, ofString "a\n  b\n  $" = .ok first ∧
      ComesBack ⟨.unexpectedCharacter '$', 3⟩ ⟨.newline, 2⟩ [⟨.dedent, 3⟩] 2
        (first.performAll (List.replicate 7 (.ask .next))) := by
  have hfirst : ofString "a\n  b\n  $" =
      .ok ⟨[], ⟨.identifier "a", 1⟩, [], ⟨"\n  b\n  $".toList, 1, 0, false⟩⟩ := by
    rfl
  refine ⟨_, hfirst, ?_⟩
  obtain ⟨-, -, ⟨character, -, hlater⟩ | ⟨hcause, -⟩⟩ :=
    @behind_scanFault ⟨.unexpectedCharacter '$', 3⟩ (.ask .next) _ _ hfirst
      (List.replicate 4 (.ask .next)) rfl
  · exact hlater (List.replicate 2 (.ask .next))
  · cases hcause

/-! ## Faults that do not come back -/

/-- Digits that make a number too long, and nothing behind them. -/
theorem load_of_digits {count line : Nat} (hcount : Decimal.digitLimit ≤ count) :
    Scanner.load ⟨' ' :: '1' :: List.replicate count '1', line, 0, false⟩ =
      .fault ⟨.overlongNumber, line⟩ ⟨[], line, 0, false⟩ := by
  have hread : Lexeme.read '1' (List.replicate count '1') = .overlong [] := by
    have htooLong : Decimal.read? ('1' :: List.replicate count '1') = none := by
      rw [Decimal.read?_eq_none_iff, List.length_cons, List.length_replicate]
      exact Nat.lt_succ_of_le hcount
    have hdigit : Char.isDigit '1' = true := rfl
    simp [Lexeme.read, hdigit, htooLong]
  have hgap : Scanner.gap ⟨' ' :: '1' :: List.replicate count '1', line, 0, false⟩ =
      ⟨1, line, '1' :: List.replicate count '1'⟩ :=
    rfl
  have hload :=
    (Scanner.Loads.overlong (congrArg Gap.rest hgap) (absurd · Bool.false_ne_true) hread).eq
  rwa [hgap] at hload

/-- A fault need not come back.  Where a character begins a line of a block, the block is closed
before the character is met again, and a number that is too long is met only once. -/
theorem exists_token_behind_scanFault :
    (∃ first, ofString "a\n  b\n  $" = .ok first ∧
      let here := first.performAll (List.replicate 4 (.ask .next))
      here.next.1 = .error ⟨.unexpectedCharacter '$', 3⟩ ∧ here.current = ⟨.newline, 2⟩ ∧
        here.next.2.next.1 = .ok .dedent ∧ here.next.2.next.2.current = ⟨.dedent, 3⟩) ∧
    ∃ first, ofString (String.ofList ('x' :: ' ' :: List.replicate 4301 '1')) = .ok first ∧
      first.next.1 = .error ⟨.overlongNumber, 1⟩ ∧ first.next.2.next.1 = .ok .newline := by
  constructor
  · exact ⟨⟨[], ⟨.identifier "a", 1⟩, [], ⟨"\n  b\n  $".toList, 1, 0, false⟩⟩, rfl, rfl, rfl, rfl,
      rfl⟩
  · refine ⟨⟨[], ⟨.identifier "x", 1⟩, [], ⟨' ' :: List.replicate 4301 '1', 1, 0, false⟩⟩, ?_, ?_⟩
    · rw [ofString, Scanner.ofString, String.toList_ofList]
      rfl
    · have hload : Scanner.load ⟨' ' :: List.replicate 4301 '1', 1, 0, false⟩ =
          .fault ⟨.overlongNumber, 1⟩ ⟨[], 1, 0, false⟩ :=
        load_of_digits (Nat.le_refl _)
      rw [next_of_load rfl (by decide)]
      dsimp only
      rw [hload]
      exact ⟨rfl, rfl⟩

end Cursor

end Offside
