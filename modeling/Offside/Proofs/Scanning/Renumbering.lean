import Offside.Proofs.Scanning.Concatenation

/-!
# The same tokens on other lines

Two texts may deliver the same tokens on different lines: `renumber` says how the lines of one
are found from the lines of the other, for tokens, faults and whole tapes.

`Load.Corresponds` compares single batches, and leaves it open how the scanners behind them
are related.  If related scanners always load corresponding batches, then their tapes are the
same up to lines (`Tape.layFrom_of_corresponds`): a comparison of two texts comes down to one
step of two scanners.
-/

namespace Offside

variable {f : Nat → Nat}

/-- The token on another line. -/
def Located.renumber (f : Nat → Nat) (located : Located) : Located :=
  { located with line := f located.line }

/-- The fault on another line. -/
def SourceFault.renumber (f : Nat → Nat) (fault : SourceFault) : SourceFault :=
  { fault with line := f fault.line }

/-- The place on another line. -/
def Place.renumber (f : Nat → Nat) (place : Place) : Place :=
  { place with line := f place.line }

/-- The tape with all its tokens and its fault on other lines. -/
def Tape.renumber (f : Nat → Nat) : Tape → Tape
  | ended place beforeLast => ended (place.renumber f) beforeLast
  | broken token place fault => broken token (place.renumber f) (fault.renumber f)
  | more token place rest => more token (place.renumber f) (rest.renumber f)

/-- What scanning a text comes to, on other lines: its tape, or the fault before the first
token. -/
def Tape.renumberScan (f : Nat → Nat) : Except SourceFault Tape → Except SourceFault Tape
  | .ok tape => .ok (tape.renumber f)
  | .error fault => .error (fault.renumber f)

/-! ## Lines that are kept -/

/-- Tokens that keep their lines. -/
theorem Located.map_renumber_of_forall {located : List Located}
    (h : ∀ token ∈ located, f token.line = token.line) :
    located.map (renumber f) = located := by
  refine (List.map_congr_left fun token hmem => ?_).trans (List.map_id located)
  simp [renumber, h token hmem]

@[simp] theorem Tape.renumber_id (tape : Tape) : tape.renumber id = tape := by
  induction tape with
  | ended place beforeLast => rfl
  | broken token place fault => rfl
  | more token place rest ih => rw [renumber, ih]; rfl

@[simp] theorem Tape.renumberScan_id (scan : Except SourceFault Tape) :
    renumberScan id scan = scan := by
  cases scan with
  | ok tape => rw [renumberScan, renumber_id]
  | error fault => rfl

/-! ## Batches that correspond -/

/-- Two loads give the same tokens or the same fault, on other lines, and they leave scanners
that are related. -/
inductive Load.Corresponds (f : Nat → Nat) (related : Scanner → Scanner → Prop) :
    Load → Load → Prop
  | batch {first : Located} {more : List Located} {next other : Scanner}
      (h : related next other) :
      Corresponds f related (.batch first more next)
        (.batch (first.renumber f) (more.map (Located.renumber f)) other)
  | last (closing : List Located) (line : Nat) :
      Corresponds f related (.last closing line)
        (.last (closing.map (Located.renumber f)) (f line))
  | fault (fault : SourceFault) (next other : Scanner) :
      Corresponds f related (.fault fault next) (.fault (fault.renumber f) other)

namespace Load.Corresponds

variable {related : Scanner → Scanner → Prop} {scanner other next : Scanner} {load : Load}

/-- A load corresponds to itself, if related scanners may be the same and lines are kept. -/
theorem refl (hrelated : ∀ scanner, related scanner scanner) (load : Load) :
    Corresponds id related load load := by
  cases load with
  | batch first more next =>
      have h : Corresponds id related (.batch first more next)
          (.batch first (more.map (Located.renumber id)) next) := .batch (hrelated next)
      rwa [Located.map_renumber_of_forall fun _ _ => rfl] at h
  | last closing line =>
      have h : Corresponds id related (.last closing line)
          (.last (closing.map (Located.renumber id)) line) := .last closing line
      rwa [Located.map_renumber_of_forall fun _ _ => rfl] at h
  | fault fault next => exact .fault fault next next

/-- A single token, on another line. -/
theorem single {token : Token} {line : Nat} (h : related next other) :
    Corresponds f related (.batch ⟨token, line⟩ [] next) (.batch ⟨token, f line⟩ [] other) :=
  .batch h

/-- The marks that lead a line, on another line. -/
theorem shift {depth target line : Nat} {rest : List Char}
    (h : related ⟨rest, line, target, false⟩ ⟨rest, f line, target, false⟩) :
    Corresponds f related (Scanner.shift depth target line rest)
      (Scanner.shift depth target (f line) rest) := by
  have hbatch := @Corresponds.batch f related
    ⟨if depth < target then .indent else .dedent, line⟩
    (List.replicate ((if depth < target then target - depth else depth - target) - 1)
      ⟨if depth < target then .indent else .dedent, line⟩) _ _ h
  rwa [List.map_replicate] at hbatch

/-- The marks that end a stream, on another line. -/
theorem finish (depth : Nat) (lineStart : Bool) (line : Nat) :
    Corresponds f related (Scanner.finish depth lineStart line)
      (Scanner.finish depth lineStart (f line)) := by
  have hlast := @Corresponds.last f related
    ((if lineStart then [] else [⟨.newline, line⟩]) ++ List.replicate depth ⟨.dedent, line⟩) line
  rw [List.map_append, List.map_replicate] at hlast
  cases lineStart with
  | true => exact hlast
  | false => exact hlast

end Load.Corresponds

/-! ## The same text further down -/

/-- Passing over a gap loses no line. -/
theorem Gap.line_skip (lineStart inComment : Bool) (blanks line : Nat) (text : List Char) :
    (skip lineStart inComment blanks line text).line +
        (skip lineStart inComment blanks line text).rest.count '\n' =
      line + text.count '\n' := by
  fun_induction skip lineStart inComment blanks line text with
  | case1 => rfl
  | case2 inComment blanks line rest hstart ih => simp [ih, Nat.add_assoc, Nat.add_comm 1]
  | case3 => rfl
  | case4 blanks line character rest hfeed ih => simp [ih, hfeed]
  | case5 inComment blanks line rest hcomment hfeed ih => simp [ih]
  | case6 inComment blanks line rest hcomment hfeed hblank ih => simp [ih]
  | case7 inComment blanks line rest hcomment hfeed hblank hreturn ih => simp [ih]
  | case8 => rfl

namespace Scanner

/-- The scanner on a later line. -/
def lower (scanner : Scanner) (count : Nat) : Scanner :=
  { scanner with line := scanner.line + count }

theorem le_gap_line (scanner : Scanner) : scanner.line ≤ scanner.gap.line := by
  have hline := Gap.line_skip scanner.lineStart false 0 scanner.line scanner.rest
  obtain ⟨passed, hpassed⟩ :=
    Gap.exists_append_rest_skip scanner.lineStart false 0 scanner.line scanner.rest
  have hcount := congrArg (List.count '\n') hpassed
  rw [List.count_append] at hcount
  rw [gap]
  omega

theorem gap_lower (scanner : Scanner) (count : Nat) :
    (scanner.lower count).gap =
      ⟨scanner.gap.blanks, scanner.gap.line + count, scanner.gap.rest⟩ := by
  obtain ⟨hblanks, hrest⟩ := gap_line scanner (scanner.line + count)
  have hline := Gap.line_skip scanner.lineStart false 0 scanner.line scanner.rest
  have hlower := Gap.line_skip scanner.lineStart false 0 (scanner.line + count) scanner.rest
  change scanner.gap.line + scanner.gap.rest.count '\n' = _ at hline
  change (gap { scanner with line := scanner.line + count }).line +
    (gap { scanner with line := scanner.line + count }).rest.count '\n' = _ at hlower
  rw [hrest] at hlower
  have hsame : (gap { scanner with line := scanner.line + count }).line =
      scanner.gap.line + count := by omega
  rw [← hblanks, ← hrest, ← hsame]
  rfl

/-- The same text further down gives the same tokens further down. -/
theorem corresponds_lower {related : Scanner → Scanner → Prop} {scanner : Scanner} {count : Nat}
    (hf : ∀ line, scanner.line ≤ line → f line = line + count)
    (hrelated : ∀ next : Scanner, scanner.line ≤ next.line → related next (next.lower count)) :
    Load.Corresponds f related scanner.load (scanner.lower count).load := by
  have hle := le_gap_line scanner
  have hlower := gap_lower scanner count
  have hline := hf _ hle
  cases hgap : scanner.gap.rest with
  | nil =>
      rw [load_of_nil hgap, load_of_nil (by rw [hlower, hgap]), hlower, ← hline]
      exact .finish _ _ _
  | cons first rest =>
      rw [load_of_cons hgap, load_of_cons (by rw [hlower, hgap]), hlower]
      simp only [lower, ← hline]
      by_cases hshift : scanner.lineStart ∧ scanner.gap.blanks / indentWidth ≠ scanner.depth
      · rw [if_pos hshift, if_pos hshift]
        refine .shift ?_
        rw [hline]
        exact hrelated ⟨first :: rest, _, _, _⟩ hle
      rw [if_neg hshift, if_neg hshift]
      by_cases hfeed : first = '\n'
      · rw [if_pos hfeed, if_pos hfeed]
        refine .single ?_
        rw [hline, Nat.add_right_comm]
        exact hrelated ⟨rest, _, _, _⟩ (Nat.le_succ_of_le hle)
      rw [if_neg hfeed, if_neg hfeed]
      unfold loadLexeme
      cases Lexeme.read first rest with
      | token token breaks after =>
          refine .single ?_
          rw [hline, Nat.add_right_comm]
          exact hrelated ⟨_, _, _, _⟩ (Nat.le_add_right_of_le hle)
      | unclosed =>
          rw [hline, Nat.add_right_comm, ← hf _ (Nat.le_add_right_of_le hle)]
          exact .finish _ _ _
      | overlong after => exact .fault _ _ _
      | stray => exact .fault _ _ _

end Scanner

namespace Tape

variable {related : Scanner → Scanner → Prop} {scanner other : Scanner}

@[simp] theorem renumber_layBefore (rest : Tape) (index : Nat) (taken : List Located) :
    (layBefore rest index taken).renumber f =
      layBefore (rest.renumber f) index (taken.map (Located.renumber f)) := by
  induction taken generalizing rest index with
  | nil => rfl
  | cons last earlier ih =>
      rw [layBefore, ih]
      rfl

/-- Scanners that go on to load corresponding batches have the same tape, on other lines. -/
theorem layFrom_of_corresponds
    (hload : ∀ {one other : Scanner}, related one other →
      Load.Corresponds f related one.load other.load)
    (h : related scanner other) (taken : List Located) (index : Nat) :
    layFrom (taken.map (Located.renumber f)) index other =
      renumberScan f (layFrom taken index scanner) := by
  induction hmeasure : scanner.measure using Nat.strong_induction_on
    generalizing taken index scanner other with
  | _ measure ih =>
      subst hmeasure
      have hcorresponds := hload h
      generalize hone : scanner.load = one at hcorresponds
      generalize hother : other.load = two at hcorresponds
      cases hcorresponds with
      | @batch first more next after hnext =>
          rw [layFrom_of_batch hone, layFrom_of_batch hother]
          have hrest := ih _ (Scanner.measure_lt_of_load hone) hnext
            (more.reverse ++ first :: taken) (index + 1 + more.length) rfl
          simpa using hrest
      | last closing line =>
          rw [layFrom_of_last hone, layFrom_of_last hother]
          simp [renumberScan, renumber_layBefore, renumber, Place.renumber]
      | fault fault next after =>
          rw [layFrom_of_fault hone, layFrom_of_fault hother]
          cases taken with
          | nil => rfl
          | cons last earlier =>
              simp [renumberScan, renumber_layBefore, renumber, Place.renumber,
                Located.renumber]

end Tape

end Offside
