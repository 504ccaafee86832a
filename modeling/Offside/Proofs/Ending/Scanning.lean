import Offside.Token.Cursor
import Offside.Proofs.Scanning.Batch

/-!
# Scanning ends

The scanner loads a batch in passes over its text.  A pass takes the blanks that come next, and
then it has loaded a batch or met a fault, or else it has taken up a carriage return, a comment, or
a line feed where a line is still to begin, and there is another pass (`Scanner.pass`).  As such,
this is a loop that may go on for ever; `Scanner.loadWithin` is the loop for so many passes, and
gives nothing if they are not enough.

A pass that goes on has taken up some of the text (`length_rest_lt_of_pass`), so one pass more than
there are characters is enough, and then the loop gives what `Scanner.load` says
(`loadWithin_eq`).  This holds of any scanner, wherever it stands and whatever it has met before,
and therefore of every request to a cursor.
-/

namespace Offside

/-! ## Gaps -/

namespace Gap

variable {lineStart : Bool} {blanks line : Nat}

theorem skip_blanks (text : List Char) :
    skip lineStart false blanks line text =
      skip lineStart false (blanks + (text.takeWhile (· = ' ')).length) line
        (text.dropWhile (· = ' ')) := by
  induction text generalizing blanks with
  | nil => rfl
  | cons first rest ih =>
      by_cases hblank : first = ' '
      · subst hblank
        rw [skip]
        simp only [Char.reduceEq, if_false, if_true, Bool.false_eq_true, List.takeWhile_cons,
          List.dropWhile_cons, decide_true, List.length_cons]
        rw [ih, Nat.add_assoc, Nat.add_comm 1]
      · simp [hblank]

/-- A comment goes up to the end of its line. -/
theorem skip_comment (text : List Char) :
    skip lineStart true 0 line text =
      skip lineStart false 0 line (text.dropWhile (· ≠ '\n')) := by
  induction text with
  | nil => rfl
  | cons first rest ih =>
      by_cases hfeed : first = '\n'
      · subst hfeed
        simp [skip]
      · simpa [skip, hfeed] using ih

end Gap

namespace Scanner

/-! ## Passes -/

/-- What a pass comes to. -/
inductive Pass
  | loaded (load : Load)
  /-- There is another pass, from this scanner on. -/
  | again (next : Scanner)

/-- The rest of a pass, behind so many blanks. -/
def passBehind (blanks : Nat) (scanner : Scanner) : Pass :=
  match scanner.rest with
  | [] => .again scanner
  | first :: rest =>
    if scanner.lineStart ∧ first ∉ ['\n', '\r', '#'] ∧ blanks / indentWidth ≠ scanner.depth then
      .loaded (shift scanner.depth (blanks / indentWidth) scanner.line (first :: rest))
    else if first = '#' then .again { scanner with rest := rest.dropWhile (· ≠ '\n') }
    else if first = '\n' then
      if scanner.lineStart then .again { scanner with rest, line := scanner.line + 1 }
      else
        .loaded (.batch ⟨.newline, scanner.line⟩ []
          ⟨rest, scanner.line + 1, scanner.depth, true⟩)
    else if first = '\r' then .again { scanner with rest }
    else .loaded (loadLexeme scanner.depth scanner.lineStart scanner.line first rest)

/-- One pass of the loop. -/
def pass (scanner : Scanner) : Pass :=
  if scanner.rest = [] then .loaded (finish scanner.depth scanner.lineStart scanner.line)
  else passBehind (scanner.rest.takeWhile (· = ' ')).length
    { scanner with rest := scanner.rest.dropWhile (· = ' ') }

/-- Loads a batch in so many passes at most. -/
def loadWithin : Nat → Scanner → Option Load
  | 0, _ => none
  | passes + 1, scanner =>
    match scanner.pass with
    | .loaded load => some load
    | .again next => loadWithin passes next

variable {scanner next : Scanner} {blanks : Nat}

theorem length_rest_of_passBehind (h : passBehind blanks scanner = .again next) :
    next.rest.length < scanner.rest.length ∨ next = scanner ∧ scanner.rest = [] := by
  unfold passBehind at h
  split at h
  · next hrest =>
      cases h
      exact .inr ⟨rfl, hrest⟩
  · next first rest hrest =>
      have hcomment := (List.dropWhile_sublist (· ≠ '\n') (l := rest)).length_le
      refine .inl ?_
      rw [hrest, List.length_cons]
      split at h
      · cases h
      · split at h
        · cases h
          exact Nat.lt_succ_of_le hcomment
        · split at h
          · split at h
            · cases h
              exact Nat.lt_succ_self _
            · cases h
          · split at h
            · cases h
              exact Nat.lt_succ_self _
            · cases h

/-- A pass behind which there is another one takes up some of the text. -/
theorem length_rest_lt_of_pass (h : scanner.pass = .again next) :
    next.rest.length < scanner.rest.length := by
  have hblanks := (List.dropWhile_sublist (· = ' ') (l := scanner.rest)).length_le
  unfold pass at h
  split at h
  · cases h
  · next hrest =>
      obtain hlt | ⟨rfl, hnil⟩ := length_rest_of_passBehind h
      · exact Nat.lt_of_lt_of_le hlt hblanks
      · dsimp only at hnil ⊢
        rw [hnil]
        exact List.length_pos_of_ne_nil hrest

/-! ## What the passes come to -/

/-- What a pass has loaded, or what there is to load behind it, is what there was to load. -/
def Pass.Loads (load : Load) : Pass → Prop
  | .loaded found => found = load
  | .again next => next.load = load

/-- The batch depends on the place where the next lexeme begins, and not on the way there. -/
theorem load_of_gap_eq {text : List Char} {line : Nat}
    (hgap : scanner.gap = Gap.skip scanner.lineStart false 0 line text) :
    load { scanner with rest := text, line } = scanner.load := by
  have hsame : gap { scanner with rest := text, line } = scanner.gap := hgap.symm
  rw [load_eq, load_eq, hsame]

theorem passBehind_loads {text : List Char} (hblank : ∀ rest, text ≠ ' ' :: rest)
    (hgap : scanner.gap = Gap.skip scanner.lineStart false blanks scanner.line text) :
    (passBehind blanks { scanner with rest := text }).Loads scanner.load := by
  cases text with
  | nil =>
      have hnil : scanner.gap.rest = [] := by
        rw [hgap]
        rfl
      have hline : scanner.gap.line = scanner.line := by
        rw [hgap]
        rfl
      change load { scanner with rest := [] } = scanner.load
      rw [load_of_nil hnil, load_of_nil rfl, hline]
      rfl
  | cons first rest =>
      have hfirst : first ≠ ' ' := fun heq => hblank rest (heq ▸ rfl)
      by_cases hhash : first = '#'
      · subst hhash
        have hpass : passBehind blanks { scanner with rest := '#' :: rest } =
            .again { scanner with rest := rest.dropWhile (· ≠ '\n') } := by
          simp [passBehind]
        rw [hpass]
        refine load_of_gap_eq ?_
        rw [hgap, ← Gap.skip_comment]
        rfl
      by_cases hreturn : first = '\r'
      · subst hreturn
        have hpass : passBehind blanks { scanner with rest := '\r' :: rest } =
            .again { scanner with rest } := by
          simp [passBehind]
        rw [hpass]
        refine load_of_gap_eq ?_
        rw [hgap]
        rfl
      by_cases hbegins : first = '\n' ∧ scanner.lineStart = true
      · obtain ⟨rfl, hstart⟩ := hbegins
        have hpass : passBehind blanks { scanner with rest := '\n' :: rest } =
            .again { scanner with rest, line := scanner.line + 1 } := by
          simp [passBehind, hstart]
        rw [hpass]
        refine load_of_gap_eq ?_
        rw [hgap, hstart]
        rfl
      -- here the next lexeme begins, or the line ends
      have hends : scanner.gap = ⟨blanks, scanner.line, first :: rest⟩ :=
        hgap.trans (Gap.skip_of_not_mem (by simp [hfirst, hhash, hreturn])
          fun hfeed => by simpa [hfeed] using hbegins)
      have hload := load_of_cons (congrArg Gap.rest hends)
      rw [hends] at hload
      change Pass.Loads _ _
      rw [hload]
      by_cases hfeed : first = '\n'
      · have hstart : scanner.lineStart = false := by simpa [hfeed] using hbegins
        simp [passBehind, Pass.Loads, hfeed, hstart]
      · by_cases hshift : scanner.lineStart ∧ blanks / indentWidth ≠ scanner.depth
        · simp [passBehind, Pass.Loads, hfeed, hhash, hreturn, hshift]
        · simp [passBehind, Pass.Loads, hfeed, hhash, hreturn, hshift]

/-- A pass loads what there is to load, or leaves it to the passes behind it. -/
theorem pass_loads (scanner : Scanner) : scanner.pass.Loads scanner.load := by
  unfold pass
  split
  · next hrest =>
      have hgap : scanner.gap = ⟨0, scanner.line, []⟩ := by
        rw [gap, hrest]
        rfl
      rw [load_of_nil (congrArg Gap.rest hgap), hgap]
      rfl
  · refine passBehind_loads (fun rest hblank => ?_) ?_
    · have hhead := List.head?_dropWhile_not (· = ' ') scanner.rest
      rw [hblank] at hhead
      simp at hhead
    · rw [gap, Gap.skip_blanks, Nat.zero_add]

/-- One pass more than there are characters is enough. -/
theorem loadWithin_eq {passes : Nat} (h : scanner.rest.length < passes) :
    scanner.loadWithin passes = some scanner.load := by
  induction passes generalizing scanner with
  | zero => exact absurd h (Nat.not_lt_zero _)
  | succ passes ih =>
      have hloads := pass_loads scanner
      unfold loadWithin
      split
      · next hpass =>
          rw [hpass] at hloads
          exact congrArg some hloads
      · next next hpass =>
          rw [hpass] at hloads
          have hlt := length_rest_lt_of_pass hpass
          rw [ih (by omega)]
          exact congrArg some hloads

end Scanner

/-! ## Cursors -/

namespace Cursor

/-- The cursor on the first token, if so many passes are enough for its batch. -/
def ofScannerWithin (passes : Nat) (scanner : Scanner) : Option (Except SourceFault Cursor) :=
  (scanner.loadWithin passes).map fun load =>
    match load with
    | .batch first more next => .ok ⟨[], first, more, next⟩
    | .last closing line => .ok (arriveLast [] closing line)
    | .fault fault _ => .error fault

/-- Where a cursor gets that has nothing pending when a batch is loaded. -/
def receive (cursor : Cursor) : Load → Except SourceFault Token × Cursor
  | .batch first more next =>
    (.ok first.token, ⟨cursor.current :: cursor.passed, first, more, next⟩)
  | .last closing line =>
    let moved := arriveLast (cursor.current :: cursor.passed) closing line
    (.ok moved.current.token, moved)
  | .fault fault next => (.error fault, { cursor with scanner := next })

/-- Moves on by one token, if so many passes are enough for a batch. -/
def nextWithin (passes : Nat) (cursor : Cursor) : Option (Except SourceFault Token × Cursor) :=
  match cursor.pending with
  | upcoming :: later =>
    some (.ok upcoming.token,
      ⟨cursor.current :: cursor.passed, upcoming, later, cursor.scanner⟩)
  | [] =>
    if cursor.current.token = .eof then some (.ok .eof, cursor)
    else (cursor.scanner.loadWithin passes).map cursor.receive

variable {cursor : Cursor} {scanner : Scanner} {passes : Nat}

/-- Moving on where nothing is pending. -/
theorem next_of_load (hpending : cursor.pending = []) (heof : cursor.current.token ≠ .eof) :
    cursor.next = cursor.receive cursor.scanner.load := by
  obtain ⟨passed, current, pending, scanner⟩ := cursor
  subst hpending
  rw [next, if_neg heof]
  cases scanner.load <;> rfl

theorem ofScannerWithin_eq (h : scanner.rest.length < passes) :
    ofScannerWithin passes scanner = some (ofScanner scanner) := by
  rw [ofScannerWithin, Scanner.loadWithin_eq h, ofScanner]
  rfl

theorem nextWithin_eq (h : cursor.scanner.rest.length < passes) :
    cursor.nextWithin passes = some cursor.next := by
  unfold nextWithin
  split
  · next hpending =>
      rw [next, hpending]
  · next hpending =>
      split
      · next heof =>
          rw [next, hpending]
          exact congrArg some (if_pos heof).symm
      · next heof =>
          rw [Scanner.loadWithin_eq h, next_of_load hpending heof]
          rfl

end Cursor

end Offside
