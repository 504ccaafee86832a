import Offside.Token.Scanner
import Offside.Proofs.Scanning.Lexeme

/-!
# What loading a batch gives

`Scanner.gap` is the place where the next lexeme of a scanner begins, and `Loads` lists what
a batch can be, given that place: the end of the stream, a change of margin, the end of a
line, a token, or one of the ways in which there is no token.  `loads_iff` says that the
list is complete and that the cases exclude one another, so that nobody else has to look
into `load`.
-/

namespace Offside

/-! ## The place where a lexeme begins -/

namespace Gap

variable {lineStart inComment : Bool} {blanks line : Nat} {text rest more : List Char}
  {first : Char}

/-- A gap ends before a character that it does not pass over. -/
theorem not_mem_of_rest_skip
    (h : (skip lineStart inComment blanks line text).rest = first :: rest) :
    first ∉ [' ', '\r', '#'] ∧ (first = '\n' → lineStart = false) := by
  fun_induction skip lineStart inComment blanks line text with
  | case1 => cases h
  | case2 inComment blanks line after hstart ih => exact ih h
  | case3 inComment blanks line after hstart =>
      cases h
      exact ⟨by decide, fun _ => Bool.not_eq_true _ ▸ hstart⟩
  | case4 _ _ _ _ _ ih => exact ih h
  | case5 _ _ _ _ _ _ ih => exact ih h
  | case6 _ _ _ _ _ _ _ ih => exact ih h
  | case7 _ _ _ _ _ _ _ _ ih => exact ih h
  | case8 inComment blanks line character after hfeed hcomment hblank hreturn hhash =>
      cases h
      exact ⟨by simp [hblank, hreturn, hhash], fun heq => absurd heq hfeed⟩

/-- Where a lexeme begins there is no gap. -/
theorem skip_of_not_mem (h : first ∉ [' ', '\r', '#'])
    (hline : first = '\n' → lineStart = false) :
    skip lineStart false blanks line (first :: rest) = ⟨blanks, line, first :: rest⟩ := by
  simp only [List.mem_cons, List.not_mem_nil, or_false, not_or] at h
  rw [skip]
  by_cases hfeed : first = '\n'
  · simp [hfeed, hline hfeed]
  · simp [hfeed, h.1, h.2.1, h.2.2]

/-- Blanks are counted. -/
theorem skip_replicate (count : Nat) :
    skip lineStart false blanks line (List.replicate count ' ' ++ text) =
      skip lineStart false (blanks + count) line text := by
  induction count generalizing blanks with
  | zero => rfl
  | succ count ih =>
      rw [List.replicate_succ, List.cons_append, skip]
      simp only [Char.reduceEq, if_false, if_true, Bool.false_eq_true]
      rw [ih, Nat.add_assoc, Nat.add_comm 1]

end Gap

namespace Scanner

/-- The place where the next lexeme begins. -/
def gap (scanner : Scanner) : Gap :=
  Gap.skip scanner.lineStart false 0 scanner.line scanner.rest

/-! ## Changes of margin -/

/-- The marks that lead a line of the given level, behind a line of the given depth. -/
def marks (depth level : Nat) : List Token :=
  List.replicate (level - depth) .indent ++ List.replicate (depth - level) .dedent

/-- The batch of a change of margin holds the marks that lead the line. -/
theorem marks_eq_cons {depth level : Nat} (h : level ≠ depth) :
    marks depth level =
      (if depth < level then .indent else .dedent) ::
        List.replicate ((if depth < level then level - depth else depth - level) - 1)
          (if depth < level then .indent else .dedent) := by
  rw [← List.replicate_succ, marks]
  by_cases hlt : depth < level
  · have hcount : level - depth - 1 + 1 = level - depth ∧ depth - level = 0 := by omega
    simp [hlt, hcount]
  · have hcount : depth - level - 1 + 1 = depth - level ∧ level - depth = 0 := by omega
    simp [hlt, hcount]

/-! ## Batches -/

/-- What loading a batch gives. -/
inductive Loads (scanner : Scanner) : Load → Prop
  /-- Nothing is left, and the stream ends. -/
  | ends (hrest : scanner.gap.rest = []) :
      Loads scanner (finish scanner.depth scanner.lineStart scanner.gap.line)
  /-- The line that begins is of another depth than the one before. -/
  | shift {first : Char} {rest : List Char} (hrest : scanner.gap.rest = first :: rest)
      (hstart : scanner.lineStart = true)
      (hlevel : scanner.gap.blanks / indentWidth ≠ scanner.depth) :
      Loads scanner (Scanner.shift scanner.depth (scanner.gap.blanks / indentWidth)
        scanner.gap.line (first :: rest))
  /-- The line ends. -/
  | newline {rest : List Char} (hrest : scanner.gap.rest = '\n' :: rest)
      (hstart : scanner.lineStart = false) :
      Loads scanner (.batch ⟨.newline, scanner.gap.line⟩ []
        ⟨rest, scanner.gap.line + 1, scanner.depth, true⟩)
  /-- A token is read. -/
  | lexeme {first : Char} {rest after : List Char} {token : Token} {breaks : Nat}
      (hrest : scanner.gap.rest = first :: rest)
      (hlevel : scanner.lineStart = true → scanner.gap.blanks / indentWidth = scanner.depth)
      (hread : Lexeme.read first rest = .token token breaks after) :
      Loads scanner (.batch ⟨token, scanner.gap.line⟩ []
        ⟨after, scanner.gap.line + breaks, scanner.depth, false⟩)
  /-- A string literal is not closed, and the stream ends. -/
  | unclosed {first : Char} {rest : List Char} (hrest : scanner.gap.rest = first :: rest)
      (hlevel : scanner.lineStart = true → scanner.gap.blanks / indentWidth = scanner.depth)
      (hread : Lexeme.read first rest = .unclosed) :
      Loads scanner
        (finish scanner.depth scanner.lineStart (scanner.gap.line + rest.count '\n'))
  /-- A number is too long. -/
  | overlong {first : Char} {rest after : List Char} (hrest : scanner.gap.rest = first :: rest)
      (hlevel : scanner.lineStart = true → scanner.gap.blanks / indentWidth = scanner.depth)
      (hread : Lexeme.read first rest = .overlong after) :
      Loads scanner (.fault ⟨.overlongNumber, scanner.gap.line⟩
        ⟨after, scanner.gap.line, scanner.depth, scanner.lineStart⟩)
  /-- A character begins no token. -/
  | stray {first : Char} {rest : List Char} (hrest : scanner.gap.rest = first :: rest)
      (hlevel : scanner.lineStart = true → scanner.gap.blanks / indentWidth = scanner.depth)
      (hfeed : first ≠ '\n') (hread : Lexeme.read first rest = .stray) :
      Loads scanner (.fault ⟨.unexpectedCharacter first, scanner.gap.line⟩
        ⟨first :: rest, scanner.gap.line, scanner.depth, scanner.lineStart⟩)

variable {scanner : Scanner}

theorem load_eq (scanner : Scanner) :
    scanner.load =
      match scanner.gap.rest with
      | [] => finish scanner.depth scanner.lineStart scanner.gap.line
      | first :: rest =>
        if scanner.lineStart ∧ scanner.gap.blanks / indentWidth ≠ scanner.depth then
          Scanner.shift scanner.depth (scanner.gap.blanks / indentWidth) scanner.gap.line
            (first :: rest)
        else if first = '\n' then
          .batch ⟨.newline, scanner.gap.line⟩ []
            ⟨rest, scanner.gap.line + 1, scanner.depth, true⟩
        else loadLexeme scanner.depth scanner.lineStart scanner.gap.line first rest :=
  rfl

/-- Loading where nothing is left. -/
theorem load_of_nil (hrest : scanner.gap.rest = []) :
    scanner.load = finish scanner.depth scanner.lineStart scanner.gap.line := by
  rw [load_eq, hrest]

/-- Loading where something is left. -/
theorem load_of_cons {first : Char} {rest : List Char} (hrest : scanner.gap.rest = first :: rest) :
    scanner.load =
      if scanner.lineStart ∧ scanner.gap.blanks / indentWidth ≠ scanner.depth then
        Scanner.shift scanner.depth (scanner.gap.blanks / indentWidth) scanner.gap.line
          (first :: rest)
      else if first = '\n' then
        .batch ⟨.newline, scanner.gap.line⟩ [] ⟨rest, scanner.gap.line + 1, scanner.depth, true⟩
      else loadLexeme scanner.depth scanner.lineStart scanner.gap.line first rest := by
  rw [load_eq, hrest]

theorem loads_load (scanner : Scanner) : Loads scanner scanner.load := by
  cases hrest : scanner.gap.rest with
  | nil =>
      rw [load_of_nil hrest]
      exact .ends hrest
  | cons first rest =>
      rw [load_of_cons hrest]
      split
      · next hshift => exact .shift hrest hshift.1 hshift.2
      · next hshift =>
          have hlevel : scanner.lineStart = true →
              scanner.gap.blanks / indentWidth = scanner.depth := by
            intro hstart
            by_contra hne
            exact hshift ⟨hstart, hne⟩
          split
          · next hfeed =>
              subst hfeed
              exact .newline hrest ((Gap.not_mem_of_rest_skip hrest).2 rfl)
          · next hfeed =>
              unfold loadLexeme
              split
              · next hread => exact .lexeme hrest hlevel hread
              · next hread => exact .unclosed hrest hlevel hread
              · next hread => exact .overlong hrest hlevel hread
              · next hread => exact .stray hrest hlevel hfeed hread

/-- Loading where a lexeme begins, at the margin of the line before it. -/
theorem load_of_lexeme {first : Char} {rest : List Char}
    (hrest : scanner.gap.rest = first :: rest)
    (hlevel : scanner.lineStart = true → scanner.gap.blanks / indentWidth = scanner.depth)
    (hfeed : first ≠ '\n') :
    scanner.load = loadLexeme scanner.depth scanner.lineStart scanner.gap.line first rest := by
  rw [load_of_cons hrest, if_neg fun hshift => hshift.2 (hlevel hshift.1), if_neg hfeed]

theorem ne_lineFeed_of_read {first : Char} {rest : List Char} {front : Lexeme.Front}
    (h : Lexeme.read first rest = front) (hfront : front ≠ .stray) : first ≠ '\n' := by
  intro heq
  rw [Lexeme.read_eq_stray (by simp [heq])] at h
  exact hfront h.symm

theorem Loads.eq {load : Load} (h : Loads scanner load) : scanner.load = load := by
  cases h with
  | ends hrest => exact load_of_nil hrest
  | shift hrest hstart hlevel => rw [load_of_cons hrest, if_pos ⟨hstart, hlevel⟩]
  | newline hrest hstart =>
      rw [load_of_cons hrest, if_neg (by simp [hstart]), if_pos rfl]
  | lexeme hrest hlevel hread =>
      have hfeed := ne_lineFeed_of_read hread nofun
      rw [load_of_lexeme hrest hlevel hfeed, loadLexeme, hread]
  | unclosed hrest hlevel hread =>
      have hfeed := ne_lineFeed_of_read hread nofun
      rw [load_of_lexeme hrest hlevel hfeed, loadLexeme, hread]
  | overlong hrest hlevel hread =>
      have hfeed := ne_lineFeed_of_read hread nofun
      rw [load_of_lexeme hrest hlevel hfeed, loadLexeme, hread]
  | stray hrest hlevel hfeed hread =>
      rw [load_of_lexeme hrest hlevel hfeed, loadLexeme, hread]

/-- The list of batches is complete, and every batch is one of them only. -/
theorem loads_iff {load : Load} : Loads scanner load ↔ scanner.load = load := by
  constructor
  · exact Loads.eq
  · intro h
    exact h ▸ loads_load scanner

end Scanner

end Offside
