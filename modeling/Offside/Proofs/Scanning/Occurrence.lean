import Mathlib.Data.List.DropRight
import Offside.Proofs.Scanning.Delivery
import Offside.Proofs.Scanning.Trivia

/-!
# Where tokens stand

An `Occurrence` is a token together with the text before its first character.  `Tokenizes` says how
a text falls into tokens, character after character and without a scanner: which characters stand
between lexemes, where lines begin and end, which marks lead a line, and what ends the stream.  It
counts neither lines nor blanks; both are read off the text before an occurrence (`lineBehind`,
`blanksBehind`).

The scanner, which counts them as it goes, agrees: what it lays out are the occurrences of the text,
each on the line where it stands (`Tape.scans_ofString`), and so is what a cursor comes to when it
is moved on again and again (`Cursor.yields_on_lines`).
-/

namespace Offside

open Lexeme (isQuote isWordStart soloSymbols)

/-! ## Places in a text -/

/-- The line of what stands behind a text.  Lines are counted from one. -/
def lineBehind (before : List Char) : Nat :=
  1 + before.count '\n'

/-- How many blanks stand directly behind a text. -/
def blanksBehind (before : List Char) : Nat :=
  (before.rtakeWhile (· = ' ')).length

/-- A token in a text. -/
structure Occurrence where
  /-- The token. -/
  token : Token
  /-- The text before its first character. -/
  before : List Char
deriving DecidableEq, Repr

/-- The token, on the line where it stands. -/
def Occurrence.located (occurrence : Occurrence) : Located :=
  ⟨occurrence.token, lineBehind occurrence.before⟩

/-- Something in a text that is no token. -/
structure Flaw where
  /-- What is wrong. -/
  cause : SourceCause
  /-- The text before its first character. -/
  before : List Char
deriving DecidableEq, Repr

/-- The fault, on the line where it is. -/
def Flaw.fault (flaw : Flaw) : SourceFault :=
  ⟨flaw.cause, lineBehind flaw.before⟩

/-- Tokens that stand at one place. -/
def standingAt (before : List Char) (tokens : List Token) : List Occurrence :=
  tokens.map fun token => ⟨token, before⟩

/-! ## How a text falls into tokens -/

/-- Behind `before`, where so many blocks are open and a line is to begin or has begun, the text
falls into these tokens, up to its end or up to a flaw. -/
inductive Tokenizes : Nat → Bool → List Char → List Char → List Occurrence → Option Flaw → Prop
  /-- Blanks and carriage returns stand between lexemes. -/
  | padding {depth : Nat} {lineStart : Bool} {before rest : List Char} {character : Char}
      {occurrences : List Occurrence} {flaw : Option Flaw}
      (h : character = ' ' ∨ character = '\r')
      (hrest : Tokenizes depth lineStart (before ++ [character]) rest occurrences flaw) :
      Tokenizes depth lineStart before (character :: rest) occurrences flaw
  /-- So do comments, up to the end of their line. -/
  | comment {depth : Nat} {lineStart : Bool} {before remark rest : List Char}
      {occurrences : List Occurrence} {flaw : Option Flaw} (hremark : '\n' ∉ remark)
      (hends : EndsHere rest)
      (hrest : Tokenizes depth lineStart (before ++ '#' :: remark) rest occurrences flaw) :
      Tokenizes depth lineStart before ('#' :: remark ++ rest) occurrences flaw
  /-- A line that has not begun leaves no trace. -/
  | emptyLine {depth : Nat} {before rest : List Char} {occurrences : List Occurrence}
      {flaw : Option Flaw}
      (hrest : Tokenizes depth true (before ++ ['\n']) rest occurrences flaw) :
      Tokenizes depth true before ('\n' :: rest) occurrences flaw
  /-- A line that has begun ends with its line feed. -/
  | lineEnd {depth : Nat} {before rest : List Char} {occurrences : List Occurrence}
      {flaw : Option Flaw}
      (hrest : Tokenizes depth true (before ++ ['\n']) rest occurrences flaw) :
      Tokenizes depth false before ('\n' :: rest) (⟨.newline, before⟩ :: occurrences) flaw
  /-- A line of another level than the one before is led by marks, which stand where its first
  lexeme stands. -/
  | margin {depth : Nat} {before rest : List Char} {first : Char}
      {occurrences : List Occurrence} {flaw : Option Flaw}
      (hfirst : first ∉ ['\n', ' ', '\r', '#'])
      (hlevel : blanksBehind before / Scanner.indentWidth ≠ depth)
      (hrest : Tokenizes (blanksBehind before / Scanner.indentWidth) false before (first :: rest)
        occurrences flaw) :
      Tokenizes depth true before (first :: rest)
        (standingAt before (Scanner.marks depth (blanksBehind before / Scanner.indentWidth)) ++
          occurrences) flaw
  /-- A lexeme is as long as it can be, and it begins a line of the level that is open. -/
  | lexeme {depth : Nat} {lineStart : Bool} {before spelling rest : List Char} {token : Token}
      {occurrences : List Occurrence} {flaw : Option Flaw}
      (hlevel : lineStart = true → blanksBehind before / Scanner.indentWidth = depth)
      (hspells : token.Spells spelling) (hafter : token.EndsBefore rest)
      (hrest : Tokenizes depth false (before ++ spelling) rest occurrences flaw) :
      Tokenizes depth lineStart before (spelling ++ rest) (⟨token, before⟩ :: occurrences) flaw
  /-- At the end of the text everything that is open ends. -/
  | ended {depth : Nat} {lineStart : Bool} {before : List Char} :
      Tokenizes depth lineStart before [] (standingAt before (Scanner.ending depth lineStart)) none
  /-- A string literal that is not closed goes to the end of the text. -/
  | unclosed {depth : Nat} {lineStart : Bool} {before rest : List Char} {quote : Char}
      (hlevel : lineStart = true → blanksBehind before / Scanner.indentWidth = depth)
      (hquote : isQuote quote = true)
      (hopen : ∀ body content after, StringLiteral.Body quote body content →
        rest ≠ body ++ quote :: after) :
      Tokenizes depth lineStart before (quote :: rest)
        (standingAt (before ++ quote :: rest) (Scanner.ending depth lineStart)) none
  /-- A run of digits is too long. -/
  | overlong {depth : Nat} {lineStart : Bool} {before digits rest : List Char}
      (hlevel : lineStart = true → blanksBehind before / Scanner.indentWidth = depth)
      (hdigits : ∀ digit ∈ digits, digit.isDigit = true)
      (hlength : Decimal.digitLimit < digits.length) :
      Tokenizes depth lineStart before (digits ++ rest) [] (some ⟨.overlongNumber, before⟩)
  /-- A character begins nothing. -/
  | stray {depth : Nat} {lineStart : Bool} {before rest : List Char} {character : Char}
      (hlevel : lineStart = true → blanksBehind before / Scanner.indentWidth = depth)
      (hplain : character ∉ ['\n', ' ', '\r', '#']) (hdigit : character.isDigit = false)
      (hquote : isQuote character = false)
      (hsymbol : character ∉ soloSymbols ∧ Operator.ofLead? character = none)
      (hword : isWordStart character = false) :
      Tokenizes depth lineStart before (character :: rest) []
        (some ⟨.unexpectedCharacter character, before⟩)

/-! ## Gaps -/

/-- A comment ends where its line ends. -/
theorem endsHere_dropWhile (text : List Char) : EndsHere (text.dropWhile (· ≠ '\n')) := by
  cases hrest : text.dropWhile (· ≠ '\n') with
  | nil => exact .inl rfl
  | cons first rest =>
      have hfirst : first ∈ (text.dropWhile (· ≠ '\n')).head? := by
        rw [hrest]
        rfl
      exact .inr (by simpa using Lexeme.eq_false_of_head?_dropWhile hfirst)

theorem blanksBehind_blank (before : List Char) :
    blanksBehind (before ++ [' ']) = blanksBehind before + 1 := by
  rw [blanksBehind, List.rtakeWhile_concat_pos _ _ _ (by simp), List.length_append]
  rfl

theorem blanksBehind_concat {character : Char} (h : character ≠ ' ') (before : List Char) :
    blanksBehind (before ++ [character]) = 0 := by
  rw [blanksBehind, List.rtakeWhile_concat_neg _ _ _ (by simpa using h)]
  rfl

theorem lineBehind_append (before text : List Char) :
    lineBehind (before ++ text) = lineBehind before + text.count '\n' := by
  rw [lineBehind, List.count_append, lineBehind, Nat.add_assoc]

namespace Gap

variable {lineStart : Bool} {before piece rest text : List Char} {blanks line : Nat} {gap : Gap}

/-- The gap at the front of a text ends behind some characters that are no part of a lexeme.  It
has counted their line feeds and, where a line is to begin, the blanks before the lexeme. -/
def Skips (lineStart : Bool) (before text : List Char) (line : Nat) (gap : Gap) : Prop :=
  ∃ skipped, text = skipped ++ gap.rest ∧ gap.line = line + skipped.count '\n' ∧
    (lineStart = true → gap.rest ≠ [] → gap.blanks = blanksBehind (before ++ skipped)) ∧
    ∀ depth occurrences flaw,
      Tokenizes depth lineStart (before ++ skipped) gap.rest occurrences flaw →
        Tokenizes depth lineStart before text occurrences flaw

/-- Nothing is skipped. -/
theorem skips_nil (hblanks : lineStart = true → text ≠ [] → blanks = blanksBehind before) :
    Skips lineStart before text line ⟨blanks, line, text⟩ :=
  ⟨[], rfl, rfl, by simpa using hblanks, fun _ _ _ h => by simpa using h⟩

/-- A piece is skipped, and the gap goes on behind it. -/
theorem Skips.behind (h : Skips lineStart (before ++ piece) rest (line + piece.count '\n') gap)
    (hpiece : ∀ depth occurrences flaw,
      Tokenizes depth lineStart (before ++ piece) rest occurrences flaw →
        Tokenizes depth lineStart before (piece ++ rest) occurrences flaw) :
    Skips lineStart before (piece ++ rest) line gap := by
  obtain ⟨skipped, hrest, hline, hblanks, htokenizes⟩ := h
  rw [List.append_assoc] at hblanks htokenizes
  refine ⟨piece ++ skipped, by rw [hrest, List.append_assoc], ?_, hblanks,
    fun depth occurrences flaw hbehind => hpiece _ _ _ (htokenizes _ _ _ hbehind)⟩
  rw [hline, List.count_append, Nat.add_assoc]

/-- A gap ends where the text says, whatever it was behind. -/
theorem skips_skip (text before : List Char) (blanks line : Nat)
    (hblanks : lineStart = true → blanks = blanksBehind before ∨ EndsHere text) :
    Skips lineStart before text line (skip lineStart false blanks line text) := by
  induction hlength : text.length using Nat.strong_induction_on
    generalizing text before blanks line with
  | _ length ih =>
      subst hlength
      cases text with
      | nil => exact skips_nil fun _ hne => absurd rfl hne
      | cons first rest =>
          by_cases hfeed : first = '\n'
          · subst hfeed
            cases lineStart with
            | false => exact skips_nil nofun
            | true =>
                exact (ih rest.length (Nat.lt_succ_self _) rest (before ++ ['\n']) 0 (line + 1)
                  (fun _ => .inl (blanksBehind_concat (by decide) before).symm) rfl).behind
                  fun _ _ _ => .emptyLine
          by_cases hblank : first = ' '
          · subst hblank
            refine (ih rest.length (Nat.lt_succ_self _) rest (before ++ [' ']) (blanks + 1) line
              (fun hstart => .inl ?_) rfl).behind fun _ _ _ => .padding (.inl rfl)
            rw [blanksBehind_blank, (hblanks hstart).resolve_right (by simp [EndsHere])]
          by_cases hreturn : first = '\r'
          · subst hreturn
            exact (ih rest.length (Nat.lt_succ_self _) rest (before ++ ['\r']) 0 line
              (fun _ => .inl (blanksBehind_concat (by decide) before).symm) rfl).behind
              fun _ _ _ => .padding (.inr rfl)
          by_cases hhash : first = '#'
          · subst hhash
            have hskip : skip lineStart false blanks line ('#' :: rest) =
                skip lineStart false 0 line (rest.dropWhile (· ≠ '\n')) := by
              rw [← skip_comment]
              rfl
            have hremark : '\n' ∉ rest.takeWhile (· ≠ '\n') := by
              intro hmem
              simpa using List.mem_takeWhile_imp hmem
            have hends : EndsHere (rest.dropWhile (· ≠ '\n')) := endsHere_dropWhile rest
            have hlength := (List.dropWhile_sublist (· ≠ '\n') (l := rest)).length_le
            have hcount : ('#' :: rest.takeWhile (· ≠ '\n')).count '\n' = 0 :=
              List.count_eq_zero.mpr (List.not_mem_cons_of_ne_of_not_mem (by decide) hremark)
            have hsplit : '#' :: rest =
                '#' :: rest.takeWhile (· ≠ '\n') ++ rest.dropWhile (· ≠ '\n') :=
              congrArg _ List.takeWhile_append_dropWhile.symm
            have hrest := ih _ (Nat.lt_succ_of_le hlength) (rest.dropWhile (· ≠ '\n'))
              (before ++ '#' :: rest.takeWhile (· ≠ '\n')) 0 line (fun _ => .inr hends) rfl
            rw [hskip, hsplit]
            refine Skips.behind ?_ fun _ _ _ => .comment hremark hends
            rwa [hcount, Nat.add_zero]
          · have hskip : skip lineStart false blanks line (first :: rest) =
                ⟨blanks, line, first :: rest⟩ :=
              skip_of_not_mem (by simp [hblank, hreturn, hhash]) fun heq => absurd heq hfeed
            rw [hskip]
            refine skips_nil fun hstart _ => (hblanks hstart).resolve_right ?_
            simp [EndsHere, hfeed]

end Gap

/-! ## What the scanner lays out -/

namespace Lexeme

variable {first : Char} {rest after : List Char}

/-- A character that begins no token is none of those that begin one. -/
theorem not_of_read_eq_stray (h : read first rest = .stray) :
    first.isDigit = false ∧ isQuote first = false ∧
      (first ∉ soloSymbols ∧ Operator.ofLead? first = none) ∧ isWordStart first = false := by
  unfold read at h
  split at h
  · dsimp only at h
    split at h <;> cases h
  · next hdigit =>
      split at h
      · split at h <;> cases h
      · next hquote =>
          split at h
          · split at h <;> cases h
          · next hlead =>
              split at h
              · cases h
              · next hsolo =>
                  split at h
                  · cases h
                  · next hword =>
                      simp only [Bool.not_eq_true] at hdigit hquote hword
                      exact ⟨hdigit, hquote, ⟨by simpa using hsolo, hlead⟩, hword⟩

/-- A number that is too long is a run of digits with too many of them. -/
theorem digits_of_read_eq_overlong (h : read first rest = .overlong after) :
    ∃ digits, first :: rest = digits ++ after ∧ (∀ digit ∈ digits, digit.isDigit = true) ∧
      Decimal.digitLimit < digits.length := by
  unfold read at h
  split at h
  · next hdigit =>
      dsimp only at h
      split at h
      · cases h
      · next hnone =>
          cases h
          refine ⟨first :: rest.takeWhile Char.isDigit, ?_, ?_,
            (Decimal.read?_eq_none_iff _).mp hnone⟩
          · rw [List.cons_append, List.takeWhile_append_dropWhile]
          · exact List.forall_mem_cons.mpr ⟨hdigit, fun digit hmem => List.mem_takeWhile_imp hmem⟩
  · split at h
    · split at h <;> cases h
    · split at h
      · split at h <;> cases h
      · split at h
        · cases h
        · split at h <;> cases h

/-- No body and closing quote follow the quote of a literal that is not closed. -/
theorem ne_of_read_eq_unclosed (h : read first rest = .unclosed) :
    isQuote first = true ∧ ∀ body content after, StringLiteral.Body first body content →
      rest ≠ body ++ first :: after := by
  obtain ⟨hquote, hnone⟩ := read_eq_unclosed_iff.mp h
  refine ⟨hquote, fun body content after hbody heq => ?_⟩
  obtain ⟨hescape, -⟩ := ne_of_isQuote hquote
  have hsome : StringLiteral.read first rest = some ⟨content, body.count '\n', after⟩ :=
    (StringLiteral.read_eq_some_iff hescape).mpr ⟨body, heq, hbody, rfl⟩
  rw [hnone] at hsome
  cases hsome

end Lexeme

namespace Scanner

/-- The scanner goes on behind this text. -/
structure Continues (scanner : Scanner) (before : List Char) : Prop where
  /-- It knows the line. -/
  line : scanner.line = lineBehind before
  /-- Where a line is to begin it stands directly behind a line feed, or at the start. -/
  margin : scanner.lineStart = true → blanksBehind before = 0

variable {scanner next : Scanner} {before : List Char} {first : Located}
  {more closing : List Located} {line : Nat} {found : SourceFault}

/-- The text from some place on falls into these tokens. -/
def Spreads (scanner : Scanner) (before : List Char) (occurrences : List Occurrence)
    (flaw : Option Flaw) : Prop :=
  Tokenizes scanner.depth scanner.lineStart before scanner.rest occurrences flaw

theorem Continues.skips (h : scanner.Continues before) :
    Gap.Skips scanner.lineStart before scanner.rest scanner.line scanner.gap :=
  Gap.skips_skip _ _ _ _ fun hstart => .inl (h.margin hstart).symm

theorem map_located_standingAt (before : List Char) (tokens : List Token) :
    (standingAt before tokens).map Occurrence.located =
      tokens.map fun token => ⟨token, lineBehind before⟩ := by
  simp [standingAt, Occurrence.located]

/-- Where the next lexeme stands. -/
theorem Continues.gap (h : scanner.Continues before) :
    ∃ behind, scanner.gap.line = lineBehind behind ∧
      (scanner.lineStart = true → scanner.gap.rest ≠ [] →
        scanner.gap.blanks = blanksBehind behind) ∧
      ∀ occurrences flaw,
        Tokenizes scanner.depth scanner.lineStart behind scanner.gap.rest occurrences flaw →
          scanner.Spreads before occurrences flaw := by
  obtain ⟨skipped, -, hline, hblanks, htokenizes⟩ := h.skips
  refine ⟨before ++ skipped, ?_, hblanks, htokenizes scanner.depth⟩
  rw [hline, h.line, lineBehind_append]

/-- A batch holds the tokens that come next in the text, on their lines, and it leaves the scanner
behind them. -/
theorem Continues.batch (h : scanner.Continues before)
    (hload : scanner.load = .batch first more next) :
    ∃ behind occurrences, next.Continues behind ∧
      occurrences.map Occurrence.located = first :: more ∧
      ∀ later flaw, next.Spreads behind later flaw →
        scanner.Spreads before (occurrences ++ later) flaw := by
  obtain ⟨behind, hline, hblanks, hspreads⟩ := h.gap
  generalize hloaded : scanner.load = load at hload
  cases loads_iff.mpr hloaded with
  | shift hrest hstart hlevel =>
      unfold shift at hload
      cases hload
      have hsame : scanner.gap.blanks = blanksBehind behind :=
        hblanks hstart (by rw [hrest]; exact List.cons_ne_nil _ _)
      have hplain := Gap.not_mem_of_rest_skip hrest
      refine ⟨behind, standingAt behind (marks scanner.depth
        (scanner.gap.blanks / indentWidth)), ⟨hline, nofun⟩, ?_, fun later flaw hlater => ?_⟩
      · rw [map_located_standingAt, marks_eq_cons hlevel, List.map_cons, List.map_replicate, hline]
      · rw [hrest, hstart] at hspreads
        rw [hsame] at hlevel hlater ⊢
        refine hspreads _ _ (.margin ?_ hlevel hlater)
        rw [List.mem_cons, not_or]
        refine ⟨fun heq => ?_, hplain.1⟩
        rw [hplain.2 heq] at hstart
        cases hstart
  | newline hrest hstart =>
      cases hload
      refine ⟨behind ++ ['\n'], [⟨.newline, behind⟩], ⟨?_, fun _ => ?_⟩, ?_,
        fun later flaw hlater => ?_⟩
      · rw [lineBehind_append, hline]
        rfl
      · exact blanksBehind_concat (by decide) behind
      · rw [hline]
        rfl
      · rw [hrest, hstart] at hspreads
        exact hspreads _ _ (.lineEnd hlater)
  | @lexeme head tail after token breaks hrest hlevel hread =>
      cases hload
      obtain ⟨spelled, htail, hspells, hbreaks, hafter⟩ := Lexeme.read_eq_token_iff.mp hread
      refine ⟨behind ++ head :: spelled, [⟨token, behind⟩], ⟨?_, nofun⟩, ?_,
        fun later flaw hlater => ?_⟩
      · rw [lineBehind_append, hline, hbreaks]
      · rw [hline]
        rfl
      · rw [hrest, htail, ← List.cons_append] at hspreads
        refine hspreads _ _ (.lexeme (fun hstart => ?_) hspells hafter hlater)
        rw [← hlevel hstart, hblanks hstart (by rw [hrest]; exact List.cons_ne_nil _ _)]
  | ends | unclosed | overlong | stray => cases hload

/-- The tokens that end a stream, as the scanner lists them. -/
theorem map_located_ending (depth line : Nat) (lineStart : Bool) :
    (ending depth lineStart).map (fun token => (⟨token, line⟩ : Located)) =
      (if lineStart then [] else [⟨.newline, line⟩]) ++ List.replicate depth ⟨.dedent, line⟩ ++
        [⟨.eof, line⟩] := by
  cases lineStart <;> simp [ending]

/-- The last batch holds what comes at the end of the text. -/
theorem Continues.last (h : scanner.Continues before)
    (hload : scanner.load = .last closing line) :
    ∃ occurrences, occurrences.map Occurrence.located = closing ++ [⟨.eof, line⟩] ∧
      scanner.Spreads before occurrences none := by
  obtain ⟨behind, hline, hblanks, hspreads⟩ := h.gap
  generalize hloaded : scanner.load = load at hload
  cases loads_iff.mpr hloaded with
  | ends hrest =>
      unfold finish at hload
      cases hload
      rw [hrest] at hspreads
      refine ⟨_, ?_, hspreads _ _ .ended⟩
      rw [map_located_standingAt, map_located_ending, hline]
  | unclosed hrest hlevel hread =>
      unfold finish at hload
      cases hload
      obtain ⟨hquote, hopen⟩ := Lexeme.ne_of_read_eq_unclosed hread
      rw [hrest] at hspreads hblanks
      refine ⟨_, ?_, hspreads _ _ (.unclosed (fun hstart => ?_) hquote hopen)⟩
      · rw [map_located_standingAt, map_located_ending, lineBehind_append, hline,
          List.count_cons_of_ne (Lexeme.ne_of_isQuote hquote).2.1]
      · rw [← hlevel hstart, hblanks hstart (List.cons_ne_nil _ _)]
  | shift | newline | lexeme | overlong | stray => cases hload

/-- A fault is a flaw of the text. -/
theorem Continues.flawed (h : scanner.Continues before)
    (hload : scanner.load = .fault found next) :
    ∃ flaw : Flaw, flaw.fault = found ∧ scanner.Spreads before [] (some flaw) := by
  obtain ⟨behind, hline, hblanks, hspreads⟩ := h.gap
  generalize hloaded : scanner.load = load at hload
  cases loads_iff.mpr hloaded with
  | overlong hrest hlevel hread =>
      cases hload
      obtain ⟨digits, hdigits, hall, hlength⟩ := Lexeme.digits_of_read_eq_overlong hread
      rw [hrest] at hblanks
      rw [hrest, hdigits] at hspreads
      refine ⟨⟨.overlongNumber, behind⟩, by rw [hline]; rfl,
        hspreads _ _ (.overlong (fun hstart => ?_) hall hlength)⟩
      rw [← hlevel hstart, hblanks hstart (List.cons_ne_nil _ _)]
  | stray hrest hlevel hfeed hread =>
      cases hload
      obtain ⟨hdigit, hquote, hsymbol, hword⟩ := Lexeme.not_of_read_eq_stray hread
      have hplain := (Gap.not_mem_of_rest_skip hrest).1
      rw [hrest] at hspreads hblanks
      refine ⟨⟨.unexpectedCharacter _, behind⟩, by rw [hline]; rfl,
        hspreads _ _ (.stray (fun hstart => ?_) ?_ hdigit hquote hsymbol hword)⟩
      · rw [← hlevel hstart, hblanks hstart (List.cons_ne_nil _ _)]
      · exact List.not_mem_cons_of_ne_of_not_mem hfeed hplain
  | ends | unclosed | shift | newline | lexeme => cases hload

end Scanner

namespace Tape

variable {scanner : Scanner} {before : List Char} {taken : List Located} {index : Nat}
  {rest : Tape}

@[simp] theorem tokens_layBefore :
    (layBefore rest index taken).tokens = taken.reverse ++ rest.tokens := by
  induction taken generalizing rest index with
  | nil => rfl
  | cons last earlier ih =>
      rw [layBefore, ih, List.reverse_cons, List.append_assoc]
      rfl

/-- Scanning lays out these tokens, up to the end or to a fault. -/
def Scans (scan : Except SourceFault Tape) (tokens : List Located)
    (fault? : Option SourceFault) : Prop :=
  match scan with
  | .ok tape => tape.tokens = tokens ∧ tape.fault? = fault?
  | .error fault => tokens = [] ∧ fault? = some fault

/-- What a scanner lays out behind some tokens are the tokens that the text falls into. -/
theorem scans_layFrom (h : scanner.Continues before) (taken : List Located) (index : Nat) :
    ∃ occurrences flaw, scanner.Spreads before occurrences flaw ∧
      Scans (layFrom taken index scanner)
        (taken.reverse ++ occurrences.map Occurrence.located) (flaw.map Flaw.fault) := by
  induction hmeasure : scanner.measure using Nat.strong_induction_on
    generalizing taken index scanner before with
  | _ measure ih =>
      subst hmeasure
      cases hload : scanner.load with
      | batch first more next =>
          obtain ⟨behind, occurrences, hnext, hfound, hspreads⟩ := h.batch hload
          obtain ⟨later, flaw, hlater, hscans⟩ := ih _ (Scanner.measure_lt_of_load hload) hnext
            (more.reverse ++ first :: taken) (index + 1 + more.length) rfl
          refine ⟨occurrences ++ later, flaw, hspreads later flaw hlater, ?_⟩
          rw [layFrom_of_batch hload, List.map_append, hfound]
          simpa using hscans
      | last closing line =>
          obtain ⟨occurrences, hfound, hspreads⟩ := h.last hload
          refine ⟨occurrences, none, hspreads, ?_⟩
          rw [layFrom_of_last hload, hfound]
          exact ⟨by simp [tokens_layBefore, tokens], fault?_layBefore⟩
      | fault fault next =>
          obtain ⟨flaw, hfault, hspreads⟩ := h.flawed hload
          refine ⟨[], some flaw, hspreads, ?_⟩
          rw [layFrom_of_fault hload, Option.map_some, hfault]
          cases taken with
          | nil => exact ⟨rfl, rfl⟩
          | cons last earlier => exact ⟨by simp [tokens_layBefore, tokens], fault?_layBefore⟩

/-- Scanning a text lays out the tokens that the text falls into. -/
theorem scans_ofString (text : String) :
    ∃ occurrences flaw, Tokenizes 0 true [] text.toList occurrences flaw ∧
      Scans (ofString text) (occurrences.map Occurrence.located) (flaw.map Flaw.fault) := by
  have hstart : (Scanner.ofString text).Continues [] := ⟨rfl, fun _ => rfl⟩
  exact scans_layFrom hstart [] 0

end Tape

/-! ## The order of occurrences -/

/-- Each of these tokens stands at or behind the place of the one before it, and all of them within
the text. -/
def Ordered (before rest : List Char) (occurrences : List Occurrence) : Prop :=
  occurrences.Pairwise (fun first second => first.before <+: second.before) ∧
    ∀ occurrence ∈ occurrences, before <+: occurrence.before ∧
      occurrence.before <+: before ++ rest

namespace Ordered

variable {before piece rest : List Char} {occurrences : List Occurrence}

theorem nil : Ordered before rest [] :=
  ⟨.nil, nofun⟩

/-- What stands behind a piece of a text stands in the text. -/
theorem behind (h : Ordered (before ++ piece) rest occurrences) :
    Ordered before (piece ++ rest) occurrences := by
  refine ⟨h.1, fun occurrence hmem => ?_⟩
  obtain ⟨hbefore, hrest⟩ := h.2 occurrence hmem
  rw [List.append_assoc] at hrest
  exact ⟨(List.prefix_append _ _).trans hbefore, hrest⟩

theorem behindOne {character : Char} (h : Ordered (before ++ [character]) rest occurrences) :
    Ordered before (character :: rest) occurrences :=
  h.behind

theorem cons (h : Ordered before rest occurrences) (token : Token) :
    Ordered before rest (⟨token, before⟩ :: occurrences) := by
  refine ⟨.cons (fun occurrence hmem => (h.2 occurrence hmem).1) h.1, ?_⟩
  exact List.forall_mem_cons.mpr ⟨⟨List.prefix_rfl, List.prefix_append _ _⟩, h.2⟩

theorem standingAt (h : Ordered before rest occurrences) (tokens : List Token) :
    Ordered before rest (standingAt before tokens ++ occurrences) := by
  induction tokens with
  | nil => exact h
  | cons token tokens ih => exact ih.cons token

end Ordered

/-- Tokens stand in a text in their order. -/
theorem Tokenizes.ordered {depth : Nat} {lineStart : Bool} {before rest : List Char}
    {occurrences : List Occurrence} {flaw : Option Flaw}
    (h : Tokenizes depth lineStart before rest occurrences flaw) :
    Ordered before rest occurrences := by
  induction h with
  | padding _ _ ih => exact ih.behindOne
  | comment _ _ _ ih => exact ih.behind
  | emptyLine _ ih => exact ih.behindOne
  | lineEnd _ ih => exact ih.behindOne.cons _
  | margin _ _ _ ih => exact ih.standingAt _
  | lexeme _ _ _ _ ih => exact ih.behind.cons _
  | ended => simpa using Ordered.nil.standingAt (Scanner.ending _ _)
  | @unclosed depth lineStart before rest quote =>
      have hclosing := (@Ordered.nil (before ++ quote :: rest) []).standingAt
        (Scanner.ending depth lineStart)
      simpa using hclosing.behind
  | overlong => exact .nil
  | stray => exact .nil

/-! ## What a cursor comes to -/

namespace Cursor

variable {cursor : Cursor} {text : String}

/-- Moving on again and again, a cursor comes to the tokens that its text falls into, each on the
line where it stands. -/
theorem exists_tokenizes (h : ofString text = .ok cursor) :
    ∃ occurrences flaw, Tokenizes 0 true [] text.toList occurrences flaw ∧
      cursor.Yields (occurrences.map Occurrence.located) (flaw.map Flaw.fault) := by
  obtain ⟨tape, htape, hshows, hlaid⟩ := exists_shows_of_ofString h
  obtain ⟨occurrences, flaw, htokenizes, hscans⟩ := Tape.scans_ofString text
  rw [htape] at hscans
  have hyields := hshows.yields hlaid
  rw [hscans.1, hscans.2] at hyields
  exact ⟨occurrences, flaw, htokenizes, hyields⟩

/-- When a token is the current one, the cursor names the line of its first character: one more than
there are line feeds before it.  Marks of margin stand where the first lexeme of their line stands,
and what ends the stream stands at the end of the text.  So the lines of the tokens never go
down. -/
theorem yields_on_lines (h : ofString text = .ok cursor) :
    ∃ occurrences flaw, Tokenizes 0 true [] text.toList occurrences flaw ∧
      cursor.Yields
        (occurrences.map fun occurrence =>
          ⟨occurrence.token, 1 + occurrence.before.count '\n'⟩)
        (flaw.map Flaw.fault) ∧
      occurrences.Pairwise fun first second =>
        1 + first.before.count '\n' ≤ 1 + second.before.count '\n' := by
  obtain ⟨occurrences, flaw, htokenizes, hyields⟩ := exists_tokenizes h
  refine ⟨occurrences, flaw, htokenizes, hyields, htokenizes.ordered.1.imp fun hleads => ?_⟩
  exact Nat.add_le_add_left (hleads.sublist.count_le _) 1

/-- A literal that runs over two lines, a comment, and a literal that is not closed. -/
def sampleText : String :=
  "x = 'a\nb' # c\n\n  y = \"d\n"

theorem yields_on_lines_sample :
    ∃ cursor, ofString sampleText = .ok cursor ∧
      ∃ occurrences flaw, Tokenizes 0 true [] sampleText.toList occurrences flaw ∧
        cursor.Yields
          (occurrences.map fun occurrence =>
            ⟨occurrence.token, 1 + occurrence.before.count '\n'⟩)
          (flaw.map Flaw.fault) ∧
        occurrences.Pairwise fun first second =>
          1 + first.before.count '\n' ≤ 1 + second.before.count '\n' := by
  have hcursor : ofString sampleText =
      .ok ⟨[], ⟨.identifier "x", 1⟩, [], ⟨" = 'a\nb' # c\n\n  y = \"d\n".toList, 1, 0, false⟩⟩ := by
    rfl
  exact ⟨_, hcursor, yields_on_lines hcursor⟩

end Cursor

end Offside
