import Offside.Grammar.Program
import Offside.Proofs.Ending.Statement
import Offside.Proofs.Ending.Tape

/-!
# Reading ends

`readWithin` reads a program off a cursor in a limited number of turns, and gives nothing if they
are used up.  Two turns for every character of a text are always enough, and two more for its end;
the outcome is then the one that `Program.read` gives for the tape of the text.  The same holds of a
cursor wherever it stands, with the tape that it shows and the tokens that it goes over at most
(`reading_ends`).
-/

namespace Offside.Program

/-- What reading comes to, apart from what a log would say. -/
def outcome (program : Program) : Except SourceFault Node × Declared :=
  (program.result, program.declared)

/-- Reads a program off a cursor, in so many turns at most. -/
def readWithin (time source : Nat) (classes : Classes) (names : Bindings ClassId)
    (cursor : Cursor) : Option (Except SourceFault Node × Declared) :=
  match Building.program source time time (cursor, ⟨classes, names, []⟩) with
  | .ok nodes (_, declared) => some (.ok (.block nodes), declared)
  | .error (.refused refusal) (_, declared) => some (.error refusal.fault, declared)
  | .error .late _ => none

variable {time source : Nat} {classes : Classes} {names : Bindings ClassId} {cursor : Cursor}
  {tape : Tape}

/-- More turns than there are tokens are enough. -/
theorem readWithin_eq (hshows : cursor.Shows tape) (htime : tape.length < time) :
    readWithin time source classes names cursor =
      some (read source classes names tape).outcome := by
  have hends : Building.Ends (Building.program source time time (cursor, ⟨classes, names, []⟩))
      (Statement.program source tape ⟨classes, names, []⟩) :=
    Building.program_ends hshows htime htime
  unfold readWithin outcome read
  generalize Statement.program source tape ⟨classes, names, []⟩ = found at hends
  generalize Building.program source time time (cursor, ⟨classes, names, []⟩) = result at hends
  cases hends with
  | ok nodes moved after => rfl
  | error refusal moved after => rfl

/-- Loading a batch, moving on and reading a program end.

Every pass of the scanner behind which there is another one takes up some of the text, so one pass
more than there are characters is enough for the first batch of a text and for the batch of every
request.  Every loop and every recursion of the reader gets a number of turns that is known
beforehand, from the tokens that are left at most wherever the cursor stands; a loop that waited for
a token that does not come would use up any number.  The outcome is that of the tape that the cursor
shows, which for a text is the tape of the text. -/
theorem reading_ends (text : String) (source : Nat) (classes : Classes)
    (names : Bindings ClassId) :
    (∀ scanner next : Scanner,
      scanner.pass = .again next → next.rest.length < scanner.rest.length) ∧
    (∀ passes, text.length < passes →
      Cursor.ofScannerWithin passes (.ofString text) = some (Cursor.ofString text)) ∧
    (∀ (cursor : Cursor) (passes : Nat), cursor.scanner.rest.length < passes →
      cursor.nextWithin passes = some cursor.next) ∧
    (∀ cursor : Cursor, ∃ tape, cursor.Shows tape ∧ ∀ time, cursor.remaining < time →
      readWithin time source classes names cursor =
        some (read source classes names tape).outcome) ∧
    ((∃ fault, Cursor.ofString text = .error fault ∧ Tape.ofString text = .error fault) ∨
      ∃ cursor tape, Cursor.ofString text = .ok cursor ∧ Tape.ofString text = .ok tape ∧
        ∀ time, 2 * text.length + 2 ≤ time →
          readWithin time source classes names cursor =
            some (read source classes names tape).outcome) := by
  refine ⟨fun _ _ => Scanner.length_rest_lt_of_pass, fun passes hpasses => ?_,
    fun _ _ => Cursor.nextWithin_eq, fun cursor => ?_, ?_⟩
  · exact Cursor.ofScannerWithin_eq hpasses
  · obtain ⟨tape, hshows, hlength⟩ := cursor.exists_shows
    refine ⟨tape, hshows, fun time htime => ?_⟩
    exact readWithin_eq hshows (Nat.lt_of_le_of_lt hlength htime)
  · obtain hfault | ⟨cursor, tape, hcursor, htape, hshows, hlength⟩ :=
      Cursor.shows_of_ofScanner (.ofString text)
    · exact .inl hfault
    · refine .inr ⟨cursor, tape, hcursor, htape, fun time htime => ?_⟩
      exact readWithin_eq hshows (Nat.lt_of_lt_of_le hlength htime)

/-- A source that stops in the middle of its innermost arguments. -/
def truncated : String :=
  "if x:\n  print f(1, (2 +"

/-- A comment takes a pass of its own, and a source that stops too early is refused in time. -/
theorem reading_ends_sample :
    (∃ next, Scanner.pass (.ofString "  # x\ny") = .again next ∧
      next.rest.length < (Scanner.ofString "  # x\ny").rest.length) ∧
    Cursor.ofScannerWithin 24 (.ofString truncated) = some (Cursor.ofString truncated) ∧
    ∃ cursor tape, Cursor.ofString truncated = .ok cursor ∧ Tape.ofString truncated = .ok tape ∧
      cursor.nextWithin 24 = some cursor.next ∧
      (∃ shown, cursor.Shows shown ∧
        readWithin 48 0 .empty .empty cursor = some (read 0 .empty .empty shown).outcome) ∧
      (read 0 .empty .empty tape).result = .error ⟨.unexpectedToken .newline, 2⟩ ∧
      readWithin 48 0 .empty .empty cursor = some (read 0 .empty .empty tape).outcome := by
  obtain ⟨hpass, hfirst, hnext, houtcome, hread⟩ := reading_ends truncated 0 .empty .empty
  have hcursor : Cursor.ofString truncated =
      .ok ⟨[], ⟨.keyword .ifWord, 1⟩, [], ⟨" x:\n  print f(1, (2 +".toList, 1, 0, false⟩⟩ := by
    rfl
  have hrefused : ((Tape.ofString truncated).map fun tape =>
      (read 0 .empty .empty tape).result.map fun _ => ()) =
      .ok (.error ⟨.unexpectedToken .newline, 2⟩) := by
    decide +kernel
  refine ⟨⟨⟨"\ny".toList, 1, 0, true⟩, rfl, hpass _ _ rfl⟩, hfirst 24 (by decide), ?_⟩
  obtain ⟨fault, hfault, -⟩ | ⟨cursor, tape, hsame, htape, hread⟩ := hread
  · rw [hcursor] at hfault
    cases hfault
  rw [hcursor] at hsame
  cases hsame
  have hresult : (read 0 .empty .empty tape).result = .error ⟨.unexpectedToken .newline, 2⟩ := by
    rw [htape] at hrefused
    have hmap : (read 0 .empty .empty tape).result.map (fun _ => ()) = _ := Except.ok.inj hrefused
    cases hresult : (read 0 .empty .empty tape).result with
    | ok tree =>
        rw [hresult] at hmap
        cases hmap
    | error fault =>
        rw [hresult] at hmap
        cases hmap
        rfl
  obtain ⟨shown, hshows, houtcome⟩ := houtcome
    ⟨[], ⟨.keyword .ifWord, 1⟩, [], ⟨" x:\n  print f(1, (2 +".toList, 1, 0, false⟩⟩
  exact ⟨_, tape, hcursor, htape, hnext _ 24 (by decide),
    ⟨shown, hshows, houtcome 48 (by decide)⟩, hresult, hread 48 (by decide)⟩

end Offside.Program
