import Mathlib.Data.List.Chain
import Offside.Proofs.Scanning.Stream
import Offside.Proofs.Scanning.Writing

/-!
# Scanning undoes writing

A `Line` is what a logical line is written from: its level, and tokens in some spelling with
blanks before each of them.  Two blanks make a level, one more makes no difference, and
tokens that would run together are kept apart.

`Line.stream` says which tokens a list of lines stands for: the marks that lead every line,
its tokens, the mark that ends it, and at the end the marks that close what is open.
`Line.scan_write` says that a scanner makes these tokens of the text of the lines.

A scanner is followed from the end of the text to its front.  What it delivers from some
place on does not depend on the number of the line there, which changes where a string runs
over several lines.
-/

namespace Offside

/-! ## Lines and their texts -/

/-- A token as it stands in a line. -/
structure Word where
  /-- The token. -/
  token : Token
  /-- How many blanks come before it. -/
  blanks : Nat
  /-- The characters that spell it. -/
  spelling : List Char
  /-- They do spell it. -/
  spells : token.Spells spelling

/-- The blanks and the spelling. -/
def Word.write (word : Word) : List Char :=
  List.replicate word.blanks ' ' ++ word.spelling

/-- The second word is set apart from the first one, if their tokens run together. -/
def Word.Apart (first second : Word) : Prop :=
  first.token.clings second.token = true → second.blanks ≠ 0

/-- A logical line. -/
structure Line where
  /-- How deep the line is. -/
  level : Nat
  /-- Its first word, whose blanks are the margin. -/
  first : Word
  /-- The other words. -/
  others : List Word
  /-- Two blanks make a level, and one more makes no difference. -/
  margin : first.blanks = 2 * level ∨ first.blanks = 2 * level + 1
  /-- Words do not run together. -/
  apart : (first :: others).IsChain Word.Apart

namespace Line

/-- The text of a line, without a line end. -/
def write (line : Line) : List Char :=
  (line.first :: line.others).flatMap Word.write

/-- The text of some lines.  The last of them is ended by a line feed or by the end of the
text. -/
def writeAll (ended : Bool) : List Line → List Char
  | [] => []
  | [line] => line.write ++ if ended then ['\n'] else []
  | line :: next :: lines => line.write ++ '\n' :: writeAll ended (next :: lines)

/-- The tokens that a line is written from. -/
def tokens (line : Line) : List Token :=
  (line.first :: line.others).map Word.token

/-- The tokens that some lines stand for, behind a line of the given depth. -/
def stream (depth : Nat) : List Line → List Token
  | [] => List.replicate depth .dedent ++ [.eof]
  | line :: lines =>
    Scanner.marks depth line.level ++ (line.tokens ++ .newline :: stream line.level lines)

end Line

/-! ## Words are delivered -/

namespace Scanner

variable {rest : List Char} {depth level : Nat} {lineStart : Bool} {words : List Token}

@[simp] theorem extendedBy_blank (token : Token) : token.extendedBy ' ' = false := by
  cases token with
  | symbol lead => exact Bool.and_false _
  | _ => rfl

@[simp] theorem extendedBy_lineFeed (token : Token) : token.extendedBy '\n' = false := by
  cases token with
  | symbol lead => exact Bool.and_false _
  | _ => rfl

/-- A word does not run on into one that is set apart from it. -/
theorem endsBefore_write {first second : Word} (h : first.Apart second) (rest : List Char) :
    first.token.EndsBefore (second.write ++ rest) := by
  intro character hcharacter
  obtain ⟨head, more, hspelling⟩ := second.spells.exists_cons
  cases hblanks : second.blanks with
  | zero =>
      have hcling : first.token.clings second.token = false := by
        by_contra hcling
        exact h (by simpa using hcling) hblanks
      simp only [Word.write, hblanks, hspelling, List.replicate_zero, List.nil_append,
        List.cons_append, List.head?_cons, Option.mem_some_iff] at hcharacter
      rw [← hcharacter, Token.extendedBy_eq_clings (hspelling ▸ second.spells), hcling]
  | succ count =>
      simp only [Word.write, hblanks, List.replicate_succ, List.cons_append, List.head?_cons,
        Option.mem_some_iff] at hcharacter
      rw [← hcharacter, extendedBy_blank]

/-- Blanks are the gap before what follows them. -/
theorem gap_replicate {first : Char} (h : first ∉ [' ', '\r', '#'])
    (hline : first = '\n' → lineStart = false) (blanks line : Nat) :
    gap ⟨List.replicate blanks ' ' ++ first :: rest, line, depth, lineStart⟩ =
      ⟨blanks, line, first :: rest⟩ := by
  rw [gap, Gap.skip_replicate, Nat.zero_add]
  exact Gap.skip_of_not_mem h hline

/-- A word is delivered as its token. -/
theorem delivers_word (word : Word) (hrest : word.token.EndsBefore rest)
    (hlevel : lineStart = true → word.blanks / indentWidth = depth)
    (h : ∀ line, Delivers ⟨rest, line, depth, false⟩ words) (line : Nat) :
    Delivers ⟨word.write ++ rest, line, depth, lineStart⟩ (word.token :: words) := by
  obtain ⟨first, more, hspelling⟩ := word.spells.exists_cons
  have hspells := word.spells
  rw [hspelling] at hspells
  have hfirst := Lexeme.not_mem_of_spells hspells
  rw [List.mem_cons, not_or] at hfirst
  have hgap : gap ⟨word.write ++ rest, line, depth, lineStart⟩ =
      ⟨word.blanks, line, first :: (more ++ rest)⟩ := by
    rw [Word.write, List.append_assoc, hspelling]
    exact gap_replicate hfirst.2 (fun heq => absurd heq hfirst.1) word.blanks line
  have hload := (Loads.lexeme (congrArg Gap.rest hgap)
    (fun hstart => (congrArg (·.blanks / indentWidth) hgap).trans (hlevel hstart))
    (Lexeme.read_of_spells hspells hrest)).eq
  exact .batch hload (h _)

/-- The words of a line are delivered as their tokens. -/
theorem delivers_words (first : Word) (others : List Word)
    (hapart : (first :: others).IsChain Word.Apart)
    (hrest : ∀ character ∈ rest.head?, character = '\n' ∨ character = ' ')
    (hlevel : lineStart = true → first.blanks / indentWidth = depth)
    (h : ∀ line, Delivers ⟨rest, line, depth, false⟩ words) (line : Nat) :
    Delivers ⟨(first :: others).flatMap Word.write ++ rest, line, depth, lineStart⟩
      ((first :: others).map Word.token ++ words) := by
  induction others generalizing first lineStart line with
  | nil =>
      have hends : first.token.EndsBefore rest := by
        intro character hcharacter
        rcases hrest character hcharacter with heq | heq
        · rw [heq, extendedBy_lineFeed]
        · rw [heq, extendedBy_blank]
      rw [List.flatMap_singleton]
      exact delivers_word first hends hlevel h line
  | cons second others ih =>
      rw [List.isChain_cons_cons] at hapart
      have hends := endsBefore_write hapart.1 (others.flatMap Word.write ++ rest)
      rw [← List.append_assoc, ← List.flatMap_cons] at hends
      rw [List.flatMap_cons, List.append_assoc]
      exact delivers_word first hends hlevel (ih second hapart.2 nofun) line

/-! ## Lines are delivered -/

/-- The end of a line is delivered as a mark, whether blanks come before it or not. -/
theorem delivers_lineFeed (h : ∀ line, Delivers ⟨rest, line, depth, true⟩ words)
    (blanks line : Nat) :
    Delivers ⟨List.replicate blanks ' ' ++ '\n' :: rest, line, depth, false⟩
      (.newline :: words) := by
  have hgap : gap ⟨List.replicate blanks ' ' ++ '\n' :: rest, line, depth, false⟩ =
      ⟨blanks, line, '\n' :: rest⟩ :=
    gap_replicate (by decide) (fun _ => rfl) blanks line
  have hload := (Loads.newline (congrArg Gap.rest hgap) rfl).eq
  exact .batch hload (h _)

/-- The end of the text ends the line that has begun, and closes what is open. -/
theorem delivers_blanks (depth : Nat) (lineStart : Bool) (blanks line : Nat) :
    Delivers ⟨List.replicate blanks ' ', line, depth, lineStart⟩ (ending depth lineStart) := by
  have hgap : gap ⟨List.replicate blanks ' ', line, depth, lineStart⟩ = ⟨blanks, line, []⟩ := by
    rw [gap, ← List.append_nil (List.replicate blanks ' '), Gap.skip_replicate, Nat.zero_add]
    rfl
  exact .of_finish (load_of_nil (congrArg Gap.rest hgap))

/-- A line of another depth than the one before is led by marks. -/
theorem delivers_shift {first : Char} (hfirst : first ∉ ['\n', ' ', '\r', '#']) (blanks : Nat)
    (hlevel : blanks / indentWidth ≠ depth) (line : Nat)
    (h : Delivers ⟨first :: rest, line, blanks / indentWidth, false⟩ words) :
    Delivers ⟨List.replicate blanks ' ' ++ first :: rest, line, depth, true⟩
      (marks depth (blanks / indentWidth) ++ words) := by
  rw [List.mem_cons, not_or] at hfirst
  have hgap : gap ⟨List.replicate blanks ' ' ++ first :: rest, line, depth, true⟩ =
      ⟨blanks, line, first :: rest⟩ :=
    gap_replicate hfirst.2 (fun heq => absurd heq hfirst.1) blanks line
  have hdelivers := @Delivers.of_shift ⟨List.replicate blanks ' ' ++ first :: rest, line, depth,
    true⟩ words first rest (congrArg Gap.rest hgap) rfl
  rw [hgap] at hdelivers
  exact hdelivers hlevel h

end Scanner

namespace Line

open Scanner (Delivers)

variable {depth : Nat} {words : List Token} {rest : List Char}

theorem level_eq (line : Line) : line.first.blanks / Scanner.indentWidth = line.level := by
  have hmargin := line.margin
  rw [Scanner.indentWidth]
  omega

/-- The margin keeps no words apart. -/
theorem isChain_unindented {first : Word} {others : List Word}
    (h : (first :: others).IsChain Word.Apart) :
    ({ first with blanks := 0 } :: others).IsChain Word.Apart := by
  cases others with
  | nil => exact .singleton _
  | cons second others =>
      rw [List.isChain_cons_cons] at h ⊢
      exact h

/-- A line is delivered as its marks and its tokens. -/
theorem delivers_write (line : Line)
    (hrest : ∀ character ∈ rest.head?, character = '\n' ∨ character = ' ')
    (h : ∀ number, Delivers ⟨rest, number, line.level, false⟩ words) (number : Nat) :
    Delivers ⟨line.write ++ rest, number, depth, true⟩
      (Scanner.marks depth line.level ++ (line.tokens ++ words)) := by
  by_cases hdepth : line.level = depth
  · have hmarks : Scanner.marks depth line.level = [] := by simp [Scanner.marks, hdepth]
    rw [hmarks, List.nil_append]
    subst hdepth
    exact Scanner.delivers_words line.first line.others line.apart hrest
      (fun _ => line.level_eq) h number
  · -- the marks take the margin with them, and what follows is a line without one
    let unindented : Word := { line.first with blanks := 0 }
    have hwords : Delivers ⟨(unindented :: line.others).flatMap Word.write ++ rest, number,
        line.level, false⟩ (line.tokens ++ words) :=
      Scanner.delivers_words unindented line.others (isChain_unindented line.apart) hrest
        (fun hstart => absurd hstart Bool.false_ne_true) h number
    obtain ⟨first, more, hspelling⟩ := line.first.spells.exists_cons
    have hspells := line.first.spells
    rw [hspelling] at hspells
    have htext : line.write ++ rest = List.replicate line.first.blanks ' ' ++
        first :: (more ++ (line.others.flatMap Word.write ++ rest)) := by
      simp [write, Word.write, hspelling]
    have hunindented : (unindented :: line.others).flatMap Word.write ++ rest =
        first :: (more ++ (line.others.flatMap Word.write ++ rest)) := by
      simp [unindented, Word.write, hspelling]
    rw [hunindented, ← line.level_eq] at hwords
    rw [htext, ← line.level_eq]
    exact Scanner.delivers_shift (Lexeme.not_mem_of_spells hspells) _
      (fun heq => hdepth (line.level_eq.symm.trans heq)) number hwords

/-- The text of some lines is delivered as the tokens that they stand for. -/
theorem delivers_writeAll (ended : Bool) (lines : List Line) (depth number : Nat) :
    Delivers ⟨writeAll ended lines, number, depth, true⟩ (stream depth lines) := by
  induction lines generalizing depth number with
  | nil => exact Scanner.delivers_blanks depth true 0 number
  | cons line lines ih =>
      cases lines with
      | nil =>
          cases ended with
          | true =>
              have hrest := Scanner.delivers_lineFeed (Scanner.delivers_blanks line.level true 0) 0
              exact line.delivers_write (by simp) hrest number
          | false =>
              have hrest := Scanner.delivers_blanks line.level false 0
              exact line.delivers_write (by simp) hrest number
      | cons next lines =>
          have hrest := Scanner.delivers_lineFeed (ih line.level) 0
          exact line.delivers_write (by simp) hrest number

/-- Scanning gives the tokens of the lines that a text is written from, with their layout.
Every token with a spelling can be written in them, strings in either quote. -/
theorem scan_write (ended : Bool) (lines : List Line) :
    (∃ tape, Tape.ofString (String.ofList (writeAll ended lines)) = .ok tape ∧
      tape.fault? = none ∧ tape.words = stream 0 lines) ∧
    ∀ (token : Token) (quote : Char), token.HasSpelling → Lexeme.isQuote quote = true →
      token.Spells (token.write quote) := by
  constructor
  · have hdelivers := delivers_writeAll ended lines 0 1
    rw [← Tape.delivers_ofString_iff, Scanner.ofString, Scanner.ofChars, String.toList_ofList]
    exact hdelivers
  · intro token quote h hquote
    exact Token.spells_write h hquote

/-- Two lines, the second of them inside a block and not ended. -/
theorem scan_write_sample :
    (∃ tape, Tape.ofString "if x==007:\n   print 'it\\'s'" = .ok tape ∧ tape.fault? = none ∧
      tape.words = [.keyword .ifWord, .identifier "x", .operator .equal, .number 7, .symbol ':',
        .newline, .indent, .keyword .printWord, .string "it's", .newline, .dedent, .eof]) ∧
    (Token.string "it's").Spells ['\'', 'i', 't', '\\', '\'', 's', '\''] := by
  have hname : Token.IsName "x" :=
    ⟨⟨'x', [], rfl, rfl, nofun⟩, fun word => by cases word <;> decide⟩
  have hquote : Lexeme.isQuote '\'' = true := rfl
  have hx : (Token.identifier "x").Spells ['x'] := Token.spells_write hname hquote
  have hnumber : (Token.number 7).Spells ['0', '0', '7'] :=
    @Token.Spells.number ['0', '0', '7'] nofun (List.all_eq_true.mp rfl) (by decide)
  have hif : (Token.keyword .ifWord).Spells ['i', 'f'] := Token.spells_write trivial hquote
  have hprint : (Token.keyword .printWord).Spells ['p', 'r', 'i', 'n', 't'] :=
    Token.spells_write trivial hquote
  have hits : (Token.string "it's").Spells ['\'', 'i', 't', '\\', '\'', 's', '\''] :=
    Token.spells_write trivial hquote
  let condition : Line :=
    ⟨0, ⟨.keyword .ifWord, 0, _, hif⟩,
      [⟨.identifier "x", 1, _, hx⟩, ⟨.operator .equal, 0, _, .operator .equal⟩,
        ⟨.number 7, 0, _, hnumber⟩, ⟨.symbol ':', 0, _, .symbol (.inl (by decide))⟩],
      .inl rfl, by simp [Word.Apart, Token.clings, Token.isNumber, Token.isWord]⟩
  let body : Line :=
    ⟨1, ⟨.keyword .printWord, 3, _, hprint⟩, [⟨.string "it's", 1, _, hits⟩], .inr rfl,
      by simp [Word.Apart]⟩
  obtain ⟨hscan, hspells⟩ := scan_write false [condition, body]
  exact ⟨hscan, hspells (.string "it's") '\'' trivial hquote⟩

end Line

end Offside
