import Offside.Proofs.Scanning.Seam

/-!
# Layout trivia

Blanks, carriage returns and a comment leave no trace in the tokens of a text.  Behind a line,
directly before its line feed or the end of the text, they change nothing at all
(`ofChars_padded`).  As lines of their own, at the start of a line, they move what follows
down, and change nothing else (`ofChars_lowered`).  The only place where this fails is a string
literal, where every character counts.

Both are two scanners side by side.  Up to the seam they load the same batches
(`Scanner.EndsOutside.corresponds_append`).  At the seam the gap of one runs over the trivia
and ends where the gap of the other ends, at the same place of the text behind
(`Gap.exists_skip_trivia`): what the trivia could change is the number of blanks, which counts
only on a line that begins, and there a line feed behind the trivia takes it back to zero.

Line feeds with and without carriage returns are the same to the scanner in consequence
(`ofChars_withReturns`).
-/

namespace Offside

/-! ## Trivia -/

/-- Blanks and carriage returns, and then, it may be, a comment. -/
def IsTrivia (text : List Char) : Prop :=
  ∃ padding comment, text = padding ++ comment ∧
    (∀ character ∈ padding, character = ' ' ∨ character = '\r') ∧
    (comment = [] ∨ ∃ remark, comment = '#' :: remark ∧ '\n' ∉ remark)

/-- Lines that are each ended by a line feed. -/
def joinLines (lines : List (List Char)) : List Char :=
  lines.flatMap (· ++ ['\n'])

/-- The text with a carriage return before every line feed. -/
def withReturns (text : List Char) : List Char :=
  text.flatMap fun character => if character = '\n' then ['\r', '\n'] else [character]

variable {text trivia front back : List Char} {lines : List (List Char)}

/-- Behind a seam stands nothing, or the end of a line. -/
def EndsHere (back : List Char) : Prop :=
  back = [] ∨ back.head? = some '\n'

/-- Behind a text a line begins: the text is empty, or it ends with a line feed that is not
inside a string literal. -/
def BeginsHere (front : List Char) : Prop :=
  front = [] ∨ ∃ before, front = before ++ ['\n'] ∧
    (Region.after .code before).inLiteral = false

theorem EndsHere.separates (h : EndsHere back) : Lexeme.Separates back := by
  intro character hcharacter
  rcases h with rfl | hhead
  · cases hcharacter
  · rw [hhead] at hcharacter
    cases hcharacter
    decide

theorem IsTrivia.separates (h : IsTrivia trivia) (hback : Lexeme.Separates back) :
    Lexeme.Separates (trivia ++ back) := by
  obtain ⟨padding, comment, rfl, hpadding, hcomment⟩ := h
  cases padding with
  | cons first rest =>
      intro character hcharacter
      cases hcharacter
      rcases hpadding first List.mem_cons_self with rfl | rfl <;> decide
  | nil =>
      rcases hcomment with rfl | ⟨remark, rfl, -⟩
      · exact hback
      · intro character hcharacter
        cases hcharacter
        decide

/-! ## Gaps -/

namespace Gap

variable {lineStart inComment : Bool} {blanks line : Nat}

/-- A comment goes on to the end of its line. -/
theorem exists_skip_remark {remark : List Char} (hremark : '\n' ∉ remark) (lineStart : Bool)
    (blanks line : Nat) :
    ∃ blanks', ∀ back, skip lineStart true blanks line (remark ++ back) =
      skip lineStart true blanks' line back := by
  induction remark generalizing blanks with
  | nil => exact ⟨blanks, fun back => rfl⟩
  | cons character remark ih =>
      simp only [List.mem_cons, not_or] at hremark
      obtain ⟨blanks', hskip⟩ := ih hremark.2 0
      refine ⟨blanks', fun back => ?_⟩
      rw [List.cons_append, skip, if_neg (Ne.symm hremark.1), if_pos rfl, hskip]

/-- A gap goes on behind trivia, on the same line. -/
theorem exists_skip_trivia (h : IsTrivia text) (lineStart inComment : Bool)
    (blanks line : Nat) :
    ∃ inComment' blanks', ∀ back, skip lineStart inComment blanks line (text ++ back) =
      skip lineStart inComment' blanks' line back := by
  obtain ⟨padding, comment, rfl, hpadding, hcomment⟩ := h
  induction padding generalizing inComment blanks with
  | nil =>
      rcases hcomment with rfl | ⟨remark, rfl, hremark⟩
      · exact ⟨inComment, blanks, fun back => rfl⟩
      · obtain ⟨blanks', hskip⟩ := exists_skip_remark hremark lineStart 0 line
        refine ⟨true, blanks', fun back => ?_⟩
        rw [← hskip back, List.nil_append, List.cons_append, skip]
        simp
  | cons character padding ih =>
      have hrest := fun other hmem => hpadding other (List.mem_cons_of_mem _ hmem)
      obtain ⟨inComment', blanks', hskip⟩ :=
        ih inComment (if inComment = false ∧ character = ' ' then blanks + 1 else 0) hrest
      refine ⟨inComment', blanks', fun back => ?_⟩
      rw [← hskip back, List.cons_append, List.cons_append, skip]
      rcases hpadding character List.mem_cons_self with rfl | rfl <;>
        cases inComment <;> simp

/-- At the end of a line a gap ends at the same place however it began, up to the blanks before
that place, which count at the start of a line only. -/
theorem skip_of_endsHere (h : EndsHere back) (lineStart inComment inComment' : Bool)
    (blanks blanks' line : Nat) :
    (skip lineStart inComment blanks line back).line =
        (skip lineStart inComment' blanks' line back).line ∧
      (skip lineStart inComment blanks line back).rest =
        (skip lineStart inComment' blanks' line back).rest ∧
      (lineStart = true → (skip lineStart inComment blanks line back).rest ≠ [] →
        (skip lineStart inComment blanks line back).blanks =
          (skip lineStart inComment' blanks' line back).blanks) := by
  cases back with
  | nil => exact ⟨rfl, rfl, fun _ hne => absurd rfl hne⟩
  | cons first rest =>
      obtain rfl : first = '\n' := by simpa [EndsHere] using h
      cases lineStart with
      | true => simp [skip]
      | false => simp [skip]

/-- At the start of a line, a gap goes on behind whole lines of trivia. -/
theorem skip_joinLines (h : ∀ line ∈ lines, IsTrivia line) (line : Nat) (back : List Char) :
    skip true false 0 line (joinLines lines ++ back) =
      skip true false 0 (line + lines.length) back := by
  induction lines generalizing line with
  | nil => rfl
  | cons text lines ih =>
      obtain ⟨inComment', blanks', hskip⟩ :=
        exists_skip_trivia (h text List.mem_cons_self) true false 0 line
      have hrest := ih (fun other hmem => h other (List.mem_cons_of_mem _ hmem)) (line + 1)
      rw [joinLines, List.flatMap_cons, ← joinLines, List.append_assoc, List.append_assoc, hskip,
        List.singleton_append, skip, if_pos rfl, if_pos rfl, hrest, List.length_cons,
        Nat.add_assoc, Nat.add_comm 1]

end Gap

namespace Scanner

variable {scanner one other : Scanner}

/-- What loading a batch gives depends on the place where the next lexeme begins; the blanks
before that place count at the start of a line only. -/
theorem load_congr (hdepth : one.depth = other.depth) (hstart : one.lineStart = other.lineStart)
    (hline : one.gap.line = other.gap.line) (hrest : one.gap.rest = other.gap.rest)
    (hblanks : one.lineStart = true → one.gap.rest ≠ [] → one.gap.blanks = other.gap.blanks) :
    one.load = other.load := by
  cases hgap : other.gap.rest with
  | nil => rw [load_of_nil hgap, load_of_nil (hrest.trans hgap), hdepth, hstart, hline]
  | cons first rest =>
      rw [load_of_cons hgap, load_of_cons (hrest.trans hgap), hdepth, hline]
      cases hbegins : other.lineStart with
      | false => simp [hstart, hbegins]
      | true =>
          rw [hstart, hrest, hgap] at hblanks
          rw [hstart, hblanks hbegins (List.cons_ne_nil _ _), hbegins]

/-! ## Trivia behind a line -/

/-- One of two scanners has trivia at the end of one of the lines that are left, and otherwise
they are the same. -/
def Padded (trivia back : List Char) (one other : Scanner) : Prop :=
  one = other ∨ ∃ front : Scanner, front.EndsOutside ∧
    one = front.append back ∧ other = front.append (trivia ++ back)

theorem Padded.corresponds (htrivia : IsTrivia trivia) (hback : EndsHere back)
    (h : Padded trivia back one other) :
    Load.Corresponds id (Padded trivia back) one.load other.load := by
  rcases h with rfl | ⟨front, houtside, rfl, rfl⟩
  · exact .refl (fun _ => .inl rfl) one.load
  cases hgap : front.gap.rest with
  | cons first rest =>
      exact houtside.corresponds_append hgap hback.separates (htrivia.separates hback.separates)
        (fun _ _ => rfl) fun next hnext _ => .inr ⟨next, hnext, rfl, rfl⟩
  | nil =>
      obtain ⟨inComment, blanks, hskip⟩ := exists_gap_append hgap
      obtain ⟨inComment', blanks', htail⟩ :=
        Gap.exists_skip_trivia htrivia front.lineStart inComment blanks front.lastLine
      have hother := (hskip (trivia ++ back)).trans (htail back)
      obtain ⟨hline, hrest, hblanks⟩ := Gap.skip_of_endsHere hback front.lineStart inComment
        inComment' blanks blanks' front.lastLine
      rw [← hskip back, ← hother] at hline hrest hblanks
      have hsame : (front.append back).load = (front.append (trivia ++ back)).load :=
        load_congr rfl rfl hline hrest hblanks
      rw [hsame]
      exact .refl (fun _ => .inl rfl) _

/-! ## Lines of trivia -/

/-- One of two scanners has more lines of trivia, behind the first line feed that is not in the
front; or it stands behind them, so many lines further down. -/
def Lowered (lines : List (List Char)) (back : List Char) (last : Nat)
    (one other : Scanner) : Prop :=
  (∃ front : Scanner, front.EndsOutside ∧ front.lastLine = last ∧
    one = front.append ('\n' :: back) ∧ other = front.append ('\n' :: (joinLines lines ++ back))) ∨
  (last < one.line ∧ other.load = (one.lower lines.length).load)

/-- The line where a token of the one scanner stands with the other. -/
def lowerFrom (last count line : Nat) : Nat :=
  if line ≤ last then line else line + count

theorem load_joinLines (h : ∀ line ∈ lines, IsTrivia line) (back : List Char) (line depth : Nat) :
    load ⟨joinLines lines ++ back, line, depth, true⟩ =
      load (lower ⟨back, line, depth, true⟩ lines.length) := by
  have hgap : gap ⟨joinLines lines ++ back, line, depth, true⟩ =
      gap (lower ⟨back, line, depth, true⟩ lines.length) := Gap.skip_joinLines h line back
  rw [load_eq, load_eq, hgap]
  rfl

theorem Lowered.corresponds {last : Nat} (hlines : ∀ line ∈ lines, IsTrivia line)
    (h : Lowered lines back last one other) :
    Load.Corresponds (lowerFrom last lines.length) (Lowered lines back last) one.load
      other.load := by
  have hbelow : ∀ scanner : Scanner, last < scanner.line →
      Load.Corresponds (lowerFrom last lines.length) (Lowered lines back last) scanner.load
        (scanner.lower lines.length).load := by
    intro scanner hlast
    refine corresponds_lower (fun line hline => ?_) fun next hnext => ?_
    · rw [lowerFrom, if_neg (by omega)]
    · exact .inr ⟨by omega, rfl⟩
  rcases h with ⟨front, houtside, rfl, rfl, rfl⟩ | ⟨hlast, hload⟩
  · cases hgap : front.gap.rest with
    | cons first rest =>
        refine houtside.corresponds_append hgap (EndsHere.separates (.inr rfl))
          (EndsHere.separates (.inr rfl)) (fun line hline => if_pos hline) ?_
        exact fun next hnext hlast => .inl ⟨next, hnext, hlast, rfl, rfl⟩
    | nil =>
        obtain ⟨inComment, blanks, hskip⟩ := exists_gap_append hgap
        have hload := load_joinLines hlines back (front.lastLine + 1) front.depth
        cases hstart : front.lineStart with
        | true =>
            -- both gaps run on over the line feed
            have hend : ∀ text, (front.append ('\n' :: text)).load =
                load ⟨text, front.lastLine + 1, front.depth, true⟩ := by
              intro text
              refine load_congr rfl hstart ?_ ?_ fun _ _ => ?_
              all_goals
                rw [hskip, hstart, Gap.skip, if_pos rfl, if_pos rfl]
                rfl
            rw [hend, hend, hload]
            exact hbelow _ (Nat.lt_succ_self _)
        | false =>
            have hend : ∀ text, (front.append ('\n' :: text)).load =
                .batch ⟨.newline, front.lastLine⟩ []
                  ⟨text, front.lastLine + 1, front.depth, true⟩ := by
              intro text
              have hline : (front.append ('\n' :: text)).gap =
                  ⟨blanks, front.lastLine, '\n' :: text⟩ := by
                rw [hskip, hstart, Gap.skip, if_pos rfl, if_neg Bool.false_ne_true]
              have hnewline := Loads.newline (congrArg Gap.rest hline) hstart
              rw [hline] at hnewline
              exact hnewline.eq
            have hlast : lowerFrom front.lastLine lines.length front.lastLine = front.lastLine :=
              if_pos le_rfl
            have hsingle := @Load.Corresponds.single (lowerFrom front.lastLine lines.length)
              (Lowered lines back front.lastLine) _ _ .newline front.lastLine
              (.inr ⟨Nat.lt_succ_self _, hload⟩)
            rw [hlast] at hsingle
            rwa [hend, hend]
  · rw [hload]
    exact hbelow one hlast

end Scanner

namespace Tape

open Scanner (ofChars lowerFrom)

/-- Trivia at the end of a line changes nothing. -/
theorem ofChars_padded (htrivia : IsTrivia trivia) (hback : EndsHere back)
    (hfront : (Region.after .code front).inLiteral = false) :
    ofScanner (ofChars (front ++ trivia ++ back)) = ofScanner (ofChars (front ++ back)) := by
  have hpadded : Scanner.Padded trivia back (ofChars (front ++ back))
      (ofChars (front ++ trivia ++ back)) := by
    refine .inr ⟨ofChars front, hfront, rfl, ?_⟩
    rw [List.append_assoc]
    rfl
  have hsame := layFrom_of_corresponds (Scanner.Padded.corresponds htrivia hback) hpadded [] 0
  rwa [renumberScan_id] at hsame

/-- Whole lines of trivia at the start of a line lower what stands behind them. -/
theorem ofChars_lowered (hlines : ∀ line ∈ lines, IsTrivia line)
    (hfront : BeginsHere front) :
    ofScanner (ofChars (front ++ joinLines lines ++ back)) =
      renumberScan (lowerFrom (front.count '\n') lines.length)
        (ofScanner (ofChars (front ++ back))) := by
  have hlowered : Scanner.Lowered lines back (front.count '\n') (ofChars (front ++ back))
      (ofChars (front ++ joinLines lines ++ back)) := by
    rcases hfront with rfl | ⟨before, rfl, hbefore⟩
    · exact .inr ⟨Nat.zero_lt_one, Scanner.load_joinLines hlines back 1 0⟩
    · refine .inl ⟨ofChars before, hbefore, ?_, ?_, ?_⟩
      · simp [Scanner.lastLine, ofChars, Nat.add_comm]
      · simp [Scanner.append, ofChars]
      · simp [Scanner.append, ofChars]
  exact layFrom_of_corresponds (Scanner.Lowered.corresponds hlines) hlowered [] 0

/-- Line feeds may have a carriage return before them, outside of string literals. -/
theorem ofChars_withReturns
    (h : ∀ before after, text = before ++ '\n' :: after →
      (Region.after .code before).inLiteral = false) :
    ofScanner (ofChars (withReturns text)) = ofScanner (ofChars text) := by
  suffices hgeneral : ∀ front back, text = front ++ back →
      ofScanner (ofChars (front ++ withReturns back)) = ofScanner (ofChars (front ++ back)) from
    hgeneral [] text rfl
  intro front back htext
  induction back generalizing front with
  | nil => rfl
  | cons character back ih =>
      have hrest := ih (front ++ [character]) (by rw [htext]; simp)
      rw [List.append_assoc, List.append_assoc, List.singleton_append, List.singleton_append]
        at hrest
      by_cases hfeed : character = '\n'
      · subst hfeed
        have htrivia : IsTrivia ['\r'] := ⟨['\r'], [], rfl, by simp, .inl rfl⟩
        have hpadded := @ofChars_padded ['\r'] front ('\n' :: withReturns back) htrivia (.inr rfl)
          (h front back htext)
        rw [← hrest, ← hpadded]
        simp [withReturns]
      · rw [← hrest]
        simp [withReturns, hfeed]

/-- Trivia is invisible in a text: behind a line it changes nothing, as lines of its own it
lowers what follows, and every line feed may have a carriage return before it, all of this
outside of string literals. -/
theorem ofString_insert_trivia (text : String) :
    (∀ front trivia back : String, text = front ++ back → IsTrivia trivia.toList →
      EndsHere back.toList → (Region.after .code front.toList).inLiteral = false →
      ofString (front ++ trivia ++ back) = ofString text) ∧
    (∀ (front back : String) (lines : List String), text = front ++ back →
      (∀ line ∈ lines, IsTrivia line.toList) → BeginsHere front.toList →
      ofString (front ++ String.join (lines.map (· ++ "\n")) ++ back) =
        renumberScan (lowerFrom (front.toList.count '\n') lines.length) (ofString text)) ∧
    ((∀ before after, text.toList = before ++ '\n' :: after →
        (Region.after .code before).inLiteral = false) →
      ofString (String.ofList (withReturns text.toList)) = ofString text) := by
  refine ⟨fun front trivia back htext htrivia hback hfront => ?_,
    fun front back lines htext hlines hfront => ?_, fun h => ?_⟩
  · have hpadded := ofChars_padded htrivia hback hfront
    rw [htext]
    simpa [ofString, Scanner.ofString] using hpadded
  · have hmapped : ∀ line ∈ lines.map String.toList, IsTrivia line := by simpa using hlines
    have hlowered := @ofChars_lowered front.toList back.toList _ hmapped hfront
    have hjoin : (String.join (lines.map (· ++ "\n"))).toList =
        joinLines (lines.map String.toList) := by
      simp [joinLines, List.flatMap_map]
    rw [htext]
    simpa [ofString, Scanner.ofString, hjoin] using hlowered
  · have hreturns := ofChars_withReturns h
    simpa [ofString, Scanner.ofString] using hreturns

/-- The tokens of a conditional and a statement behind it, where the body stands on this line. -/
def sampleLayout (body : Nat) : List Located :=
  [⟨.keyword .ifWord, 1⟩, ⟨.identifier "a", 1⟩, ⟨.symbol ':', 1⟩, ⟨.newline, 1⟩,
    ⟨.indent, body⟩, ⟨.identifier "b", body⟩, ⟨.newline, body⟩,
    ⟨.dedent, body + 1⟩, ⟨.identifier "c", body + 1⟩, ⟨.newline, body + 1⟩, ⟨.eof, body + 1⟩]

/-- A comment behind the head of a block, two lines of trivia before its body, and carriage
returns at the ends of all lines. -/
theorem ofString_insert_trivia_sample :
    (ofString "if a:\n  b\nc").map (fun tape => (tape.fault?, tape.tokens)) =
      .ok (none, sampleLayout 2) ∧
    (ofString ("if a:\n" ++ String.join (["# why", " \r"].map (· ++ "\n")) ++ "  b\nc")).map
      (fun tape => (tape.fault?, tape.tokens)) = .ok (none, sampleLayout 4) ∧
    ofString ("if a:" ++ "  # why" ++ "\n  b\nc") = ofString "if a:\n  b\nc" ∧
    ofString ("if a:\n" ++ String.join (["# why", " \r"].map (· ++ "\n")) ++ "  b\nc") =
      renumberScan (lowerFrom 1 2) (ofString "if a:\n  b\nc") ∧
    ofString (String.ofList (withReturns "if a:\n  b\nc".toList)) = ofString "if a:\n  b\nc" := by
  obtain ⟨hpadded, hlowered, hreturns⟩ := ofString_insert_trivia "if a:\n  b\nc"
  refine ⟨by decide +kernel, by decide +kernel, ?_, ?_, ?_⟩
  · exact hpadded "if a:" "  # why" "\n  b\nc" rfl
      ⟨[' ', ' '], "# why".toList, rfl, by simp, .inr ⟨" why".toList, rfl, by decide⟩⟩
      (.inr rfl) rfl
  · refine hlowered "if a:\n" "  b\nc" ["# why", " \r"] rfl (fun line hline => ?_)
      (.inr ⟨"if a:".toList, rfl, rfl⟩)
    simp only [List.mem_cons, List.not_mem_nil, or_false] at hline
    rcases hline with rfl | rfl
    · exact ⟨[], "# why".toList, rfl, by simp, .inr ⟨" why".toList, rfl, by decide⟩⟩
    · exact ⟨[' ', '\r'], [], rfl, by simp, .inl rfl⟩
  · refine hreturns fun before after htext => ?_
    have hplain : Region.after .code before = .code := by
      refine Region.after_code_of_forall fun character hmem => ?_
      have hmem' : character ∈ "if a:\n  b\nc".toList := by simp [htext, hmem]
      have hall : ("if a:\n  b\nc".toList.all fun character =>
          character ≠ '#' && !Lexeme.isQuote character) = true := rfl
      simpa using List.all_eq_true.mp hall character hmem'
    rw [hplain]
    rfl

end Tape

end Offside
