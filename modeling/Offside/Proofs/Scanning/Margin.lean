import Offside.Proofs.Scanning.Occurrence

/-!
# The depth of a token

Marks open blocks and close them, and the number of blocks that are open before a token is what the
margin of its logical line says: two blanks to a level.  The margin is the run of blanks directly
before the first token of the line (`blanksBehind`), and which token that is can be seen from the
tokens alone (`lineHead?`).

`Placed` is the invariant: it says how the tokens before some place of a text and the text from
there on belong together.  Each step through the text keeps it, so it holds before every lexeme
(`Tokenizes.levelled`).
-/

namespace Offside

/-! ## Logical lines -/

/-- The first token of the last logical line of some tokens, if there is one.  Marks do not
count. -/
def lineHead? (occurrences : List Occurrence) : Option Occurrence :=
  (occurrences.rtakeWhile (·.token ≠ .newline)).find? (!·.token.isLayout)

variable {depth : Nat} {lineStart : Bool} {before rest piece : List Char} {token : Token}
  {passed occurrences : List Occurrence} {first : Occurrence} {flaw : Option Flaw}

theorem lineHead?_newline (passed : List Occurrence) (before : List Char) :
    lineHead? (passed ++ [⟨.newline, before⟩]) = none := by
  rw [lineHead?, List.rtakeWhile_concat_neg _ _ _ (by simp)]
  rfl

theorem lineHead?_concat (htoken : token ≠ .newline) (passed : List Occurrence)
    (before : List Char) :
    lineHead? (passed ++ [⟨token, before⟩]) =
      (lineHead? passed).or (if token.isLayout then none else some ⟨token, before⟩) := by
  rw [lineHead?, List.rtakeWhile_concat_pos _ _ _ (by simpa using htoken), List.find?_append]
  cases hlayout : token.isLayout <;> simp [lineHead?, hlayout]

/-- Marks do not begin a line. -/
theorem lineHead?_standingAt {tokens : List Token} (htokens : ∀ token ∈ tokens, token.IsMargin)
    (passed : List Occurrence) (before : List Char) :
    lineHead? (passed ++ standingAt before tokens) = lineHead? passed := by
  induction tokens generalizing passed with
  | nil => exact congrArg lineHead? (List.append_nil _)
  | cons token tokens ih =>
      have hmark : token ≠ .newline ∧ token.isLayout = true := by
        rcases htokens token List.mem_cons_self with rfl | rfl <;> decide
      have hrest := ih (fun other hmem => htokens other (List.mem_cons_of_mem _ hmem))
        (passed ++ [⟨token, before⟩])
      rw [standingAt, List.map_cons, ← standingAt, List.append_cons, hrest,
        lineHead?_concat hmark.1, hmark.2]
      exact Option.or_none

theorem isMargin_of_mem_marks {level : Nat} (h : token ∈ Scanner.marks depth level) :
    token.IsMargin := by
  rcases List.mem_append.mp h with hmem | hmem
  · exact .inl (List.eq_of_mem_replicate hmem)
  · exact .inr (List.eq_of_mem_replicate hmem)

/-! ## Depths -/

/-- So many blocks are open behind these tokens. -/
def OpenBlocks (passed : List Occurrence) (depth : Nat) : Prop :=
  (passed.map Occurrence.token).count .indent = (passed.map Occurrence.token).count .dedent + depth

/-- A token that is no mark changes no depth. -/
theorem OpenBlocks.concat (h : OpenBlocks passed depth) (htoken : ¬ token.IsMargin)
    (before : List Char) : OpenBlocks (passed ++ [⟨token, before⟩]) depth := by
  rw [Token.IsMargin, not_or] at htoken
  simpa [OpenBlocks, htoken.1, htoken.2] using h

/-- The marks that lead a line bring its depth. -/
theorem OpenBlocks.marks (h : OpenBlocks passed depth) (level : Nat) (before : List Char) :
    OpenBlocks (passed ++ standingAt before (Scanner.marks depth level)) level := by
  unfold OpenBlocks at h ⊢
  have hmap : (standingAt before (Scanner.marks depth level)).map Occurrence.token =
      Scanner.marks depth level := by
    simp [standingAt, Function.comp_def]
  rw [List.map_append, hmap, List.count_append, List.count_append]
  simp only [Scanner.marks, List.count_append, List.count_replicate_self, List.count_replicate]
  simp
  omega

/-- How the tokens before some place of a text belong to what stands there: the depth is that of
the line that has begun, or of a line whose marks have been read and whose first lexeme comes
next. -/
structure Placed (passed : List Occurrence) (depth : Nat) (lineStart : Bool)
    (before rest : List Char) : Prop where
  blocks : OpenBlocks passed depth
  fresh : lineStart = true → lineHead? passed = none
  begun : lineStart = false →
    (∃ first, lineHead? passed = some first ∧
      blanksBehind first.before / Scanner.indentWidth = depth) ∨
    (lineHead? passed = none ∧ blanksBehind before / Scanner.indentWidth = depth ∧
      ∃ first more, rest = first :: more ∧ first ∉ ['\n', ' ', '\r', '#'])

/-- The depth before every lexeme is the level of its line. -/
def Levelled (passed occurrences : List Occurrence) : Prop :=
  ∀ earlier lexeme later, occurrences = earlier ++ lexeme :: later →
    lexeme.token.isLayout = false →
    ∃ first, lineHead? (passed ++ earlier ++ [lexeme]) = some first ∧
      OpenBlocks (passed ++ earlier) (blanksBehind first.before / Scanner.indentWidth)

namespace Levelled

theorem nil : Levelled passed [] := by
  intro earlier lexeme later heq
  simp at heq

theorem cons (h : Levelled (passed ++ [first]) occurrences)
    (hfirst : first.token.isLayout = false → ∃ head,
      lineHead? (passed ++ [first]) = some head ∧
        OpenBlocks passed (blanksBehind head.before / Scanner.indentWidth)) :
    Levelled passed (first :: occurrences) := by
  intro earlier lexeme later heq hlayout
  cases earlier with
  | nil =>
      cases heq
      simpa using hfirst hlayout
  | cons head earlier =>
      cases heq
      simpa using h earlier lexeme later rfl hlayout

/-- Layout marks have no level of their own. -/
theorem append {marks : List Occurrence}
    (hmarks : ∀ occurrence ∈ marks, occurrence.token.isLayout = true)
    (h : Levelled (passed ++ marks) occurrences) : Levelled passed (marks ++ occurrences) := by
  induction marks generalizing passed with
  | nil => simpa using h
  | cons mark marks ih =>
      have hmark := hmarks mark List.mem_cons_self
      refine cons (ih (fun other hmem => hmarks other (List.mem_cons_of_mem _ hmem)) ?_) ?_
      · simpa using h
      · rw [hmark]
        nofun

end Levelled

theorem isLayout_of_mem_standingAt {tokens : List Token}
    (htokens : ∀ token ∈ tokens, token.isLayout = true) :
    ∀ occurrence ∈ standingAt before tokens, occurrence.token.isLayout = true := by
  intro occurrence hmem
  obtain ⟨token, htoken, rfl⟩ := List.mem_map.mp hmem
  exact htokens token htoken

theorem isLayout_of_mem_ending :
    ∀ token ∈ Scanner.ending depth lineStart, token.isLayout = true := by
  intro token hmem
  cases lineStart with
  | true =>
      obtain ⟨-, rfl⟩ | rfl : (depth ≠ 0 ∧ token = .dedent) ∨ token = .eof := by
        simpa [Scanner.ending] using hmem
      all_goals rfl
  | false =>
      obtain rfl | ⟨-, rfl⟩ | rfl : token = .newline ∨ (depth ≠ 0 ∧ token = .dedent) ∨
          token = .eof := by
        simpa [Scanner.ending] using hmem
      all_goals rfl

theorem isLayout_of_isMargin (h : token.IsMargin) : token.isLayout = true := by
  rcases h with rfl | rfl <;> rfl

/-- What can be spelled is no layout mark. -/
theorem isLayout_of_spells {spelling : List Char} (h : token.Spells spelling) :
    token.isLayout = false := by
  obtain ⟨first, more, rfl⟩ := h.exists_cons
  exact Lexeme.isLayout_of_read (Lexeme.read_of_spells h (Token.endsBefore_nil token))

/-! ## Steps through a text -/

namespace Placed

variable {text : List Char}

theorem start : Placed [] 0 true [] text where
  blocks := rfl
  fresh _ := rfl
  begun := nofun

/-- What stands between lexemes changes nothing. -/
theorem skip (h : Placed passed depth lineStart before text)
    (hgap : ∀ first more, text = first :: more → first ∈ ['\n', ' ', '\r', '#'])
    (behind rest : List Char) : Placed passed depth lineStart behind rest where
  blocks := h.blocks
  fresh := h.fresh
  begun hstart := by
    obtain hbegun | ⟨-, -, first, more, htext, hfirst⟩ := h.begun hstart
    · exact .inl hbegun
    · exact absurd (hgap first more htext) hfirst

/-- Behind the end of a line. -/
theorem lineEnd (h : Placed passed depth false before text) (behind rest : List Char) :
    Placed (passed ++ [⟨.newline, before⟩]) depth true behind rest where
  blocks := h.blocks.concat (by simp [Token.IsMargin]) before
  fresh _ := lineHead?_newline passed before
  begun := nofun

/-- Behind the marks that lead a line. -/
theorem margin {character : Char} (h : Placed passed depth true before (character :: rest))
    (hfirst : character ∉ ['\n', ' ', '\r', '#']) :
    Placed (passed ++ standingAt before
        (Scanner.marks depth (blanksBehind before / Scanner.indentWidth)))
      (blanksBehind before / Scanner.indentWidth) false before (character :: rest) where
  blocks := h.blocks.marks _ before
  fresh := nofun
  begun _ := by
    refine .inr ⟨?_, rfl, character, rest, rfl, hfirst⟩
    rw [lineHead?_standingAt fun _ => isMargin_of_mem_marks]
    exact h.fresh rfl

/-- The line that a lexeme stands in begins with a token of the level that is open. -/
theorem head (h : Placed passed depth lineStart before text)
    (hlevel : lineStart = true → blanksBehind before / Scanner.indentWidth = depth)
    (htoken : token.isLayout = false) :
    ∃ first, lineHead? (passed ++ [⟨token, before⟩]) = some first ∧
      blanksBehind first.before / Scanner.indentWidth = depth := by
  have hline : token ≠ .newline := by
    rintro rfl
    cases htoken
  rw [lineHead?_concat hline, htoken]
  have hcases : (∃ first, lineHead? passed = some first ∧
      blanksBehind first.before / Scanner.indentWidth = depth) ∨
      (lineHead? passed = none ∧ blanksBehind before / Scanner.indentWidth = depth) := by
    cases lineStart with
    | true => exact .inr ⟨h.fresh rfl, hlevel rfl⟩
    | false =>
        obtain hbegun | ⟨hnone, hsame, -⟩ := h.begun rfl
        · exact .inl hbegun
        · exact .inr ⟨hnone, hsame⟩
  obtain ⟨first, hfirst, hsame⟩ | ⟨hnone, hsame⟩ := hcases
  · exact ⟨first, by rw [hfirst]; rfl, hsame⟩
  · exact ⟨_, by rw [hnone]; rfl, hsame⟩

/-- Behind a lexeme. -/
theorem lexeme (h : Placed passed depth lineStart before text)
    (hlevel : lineStart = true → blanksBehind before / Scanner.indentWidth = depth)
    (htoken : token.isLayout = false) (behind rest : List Char) :
    Placed (passed ++ [⟨token, before⟩]) depth false behind rest where
  blocks := h.blocks.concat (by rintro (rfl | rfl) <;> cases htoken) before
  fresh := nofun
  begun _ := .inl (h.head hlevel htoken)

end Placed

/-- In what a text falls into, the depth before every lexeme is the level of its line. -/
theorem Tokenizes.levelled (h : Tokenizes depth lineStart before rest occurrences flaw)
    (hplaced : Placed passed depth lineStart before rest) : Levelled passed occurrences := by
  induction h generalizing passed with
  | padding hcharacter _ ih =>
      refine ih (hplaced.skip (fun first more heq => ?_) _ _)
      cases heq
      rcases hcharacter with rfl | rfl <;> decide
  | comment _ _ _ ih =>
      refine ih (hplaced.skip (fun first more heq => ?_) _ _)
      cases heq
      decide
  | emptyLine _ ih =>
      refine ih (hplaced.skip (fun first more heq => ?_) _ _)
      cases heq
      decide
  | lineEnd _ ih => exact (ih (hplaced.lineEnd _ _)).cons nofun
  | margin hfirst _ _ ih =>
      exact (ih (hplaced.margin hfirst)).append
        (isLayout_of_mem_standingAt fun _ hmem => isLayout_of_isMargin (isMargin_of_mem_marks hmem))
  | lexeme hlevel hspells _ _ ih =>
      have htoken := isLayout_of_spells hspells
      refine (ih (hplaced.lexeme hlevel htoken _ _)).cons fun _ => ?_
      obtain ⟨first, hfirst, hsame⟩ := hplaced.head hlevel htoken
      exact ⟨first, hfirst, hsame ▸ hplaced.blocks⟩
  | ended => simpa using Levelled.nil.append (isLayout_of_mem_standingAt isLayout_of_mem_ending)
  | unclosed => simpa using Levelled.nil.append (isLayout_of_mem_standingAt isLayout_of_mem_ending)
  | overlong => exact .nil
  | stray => exact .nil

namespace Cursor

/-- Moving on again and again, a cursor comes to the tokens that its text falls into.  Before each
of them that is no layout mark, as many more blocks have been opened than closed as the margin of
its logical line has pairs of blanks: the blanks directly before the first token of that line. -/
theorem yields_at_levels {cursor : Cursor} {text : String} (h : ofString text = .ok cursor) :
    ∃ occurrences flaw, Tokenizes 0 true [] text.toList occurrences flaw ∧
      cursor.Yields (occurrences.map Occurrence.located) (flaw.map Flaw.fault) ∧
      ∀ earlier lexeme later, occurrences = earlier ++ lexeme :: later →
        lexeme.token.isLayout = false →
        ∃ first, lineHead? (earlier ++ [lexeme]) = some first ∧
          (earlier.map Occurrence.token).count .indent =
            (earlier.map Occurrence.token).count .dedent + blanksBehind first.before / 2 := by
  obtain ⟨occurrences, flaw, htokenizes, hyields⟩ := exists_tokenizes h
  exact ⟨occurrences, flaw, htokenizes, hyields, htokenizes.levelled .start⟩

/-- A margin of three blanks, a literal that runs over two lines, a comment at the left, and a line
with a stray carriage return in its margin. -/
theorem yields_at_levels_sample :
    ∃ cursor, ofString "if x:\n   y = 'a\nb' # c\n#\n   \r  z" = .ok cursor ∧
      ∃ occurrences flaw,
        Tokenizes 0 true [] "if x:\n   y = 'a\nb' # c\n#\n   \r  z".toList occurrences flaw ∧
        cursor.Yields (occurrences.map Occurrence.located) (flaw.map Flaw.fault) ∧
        ∀ earlier lexeme later, occurrences = earlier ++ lexeme :: later →
          lexeme.token.isLayout = false →
          ∃ first, lineHead? (earlier ++ [lexeme]) = some first ∧
            (earlier.map Occurrence.token).count .indent =
              (earlier.map Occurrence.token).count .dedent + blanksBehind first.before / 2 := by
  have hcursor : ofString "if x:\n   y = 'a\nb' # c\n#\n   \r  z" =
      .ok ⟨[], ⟨.keyword .ifWord, 1⟩, [],
        ⟨" x:\n   y = 'a\nb' # c\n#\n   \r  z".toList, 1, 0, false⟩⟩ := by
    rfl
  exact ⟨_, hcursor, yields_at_levels hcursor⟩

end Cursor

end Offside
