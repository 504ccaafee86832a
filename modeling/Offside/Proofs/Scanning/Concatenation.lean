import Offside.Proofs.Scanning.Region
import Offside.Proofs.Scanning.Stream

/-!
# Scanning one text after another

What a scanner delivers of two texts, one behind the other, where the first one ends with a
line feed that is not inside a string literal.  Up to that line feed the second text changes
nothing (`Delivers.append`).  Behind it the scanner is at the start of a line, at the depth of
the first text, and the first token of the second text leads it back to depth zero: the marks
that the first text ends with come then (`Delivers.deepen`).

There is one text that does not take part in this.  A string literal that is not closed is no
token, and where it is all there is, an open block is closed by the end of the source, which
also ends a line that has not begun.  `BeginsUnclosed` says that a scanner stands before such
a literal.
-/

namespace Offside

/-! ## Gaps -/

namespace Gap

variable {lineStart inComment : Bool} {blanks line : Nat} {text rest more : List Char}
  {first : Char}

/-- What stands behind a gap does not change it. -/
theorem skip_append_of_cons
    (h : (skip lineStart inComment blanks line text).rest = first :: rest) :
    skip lineStart inComment blanks line (text ++ more) =
      ⟨(skip lineStart inComment blanks line text).blanks,
        (skip lineStart inComment blanks line text).line, first :: rest ++ more⟩ := by
  fun_induction skip lineStart inComment blanks line text with
  | case1 => cases h
  | case2 inComment blanks line after hstart ih =>
      rw [List.cons_append, skip]
      simpa [hstart] using ih h
  | case3 inComment blanks line after hstart =>
      cases h
      rw [List.cons_append, skip]
      simp [hstart]
  | case4 blanks line character after hfeed ih =>
      rw [List.cons_append, skip]
      simpa [hfeed] using ih h
  | case5 inComment blanks line after hcomment hfeed ih =>
      rw [List.cons_append, skip]
      simpa [hcomment] using ih h
  | case6 inComment blanks line after hcomment hfeed hblank ih =>
      rw [List.cons_append, skip]
      simpa [hcomment] using ih h
  | case7 inComment blanks line after hcomment hfeed hblank hreturn ih =>
      rw [List.cons_append, skip]
      simpa [hcomment] using ih h
  | case8 inComment blanks line character after hfeed hcomment hblank hreturn hhash =>
      cases h
      rw [List.cons_append, skip]
      simp [hcomment, hfeed, hblank, hreturn, hhash]

theorem getLast?_of_cons {character last : Char} (h : (character :: text).getLast? = some last)
    (hne : character ≠ last) : text.getLast? = some last := by
  cases text with
  | nil => exact absurd (by simpa using h) hne
  | cons second text => simpa using h

/-- A text that is one gap and ends with a line feed leaves a scanner at the start of a line. -/
theorem skip_append_of_nil (h : (skip true inComment blanks line text).rest = [])
    (hlast : text.getLast? = some '\n') :
    skip true inComment blanks line (text ++ more) =
      skip true false 0 (skip true inComment blanks line text).line more := by
  generalize hstart : true = lineStart at h ⊢
  fun_induction skip lineStart inComment blanks line text with
  | case1 => cases hlast
  | case2 inComment blanks line after _ ih =>
      rw [List.cons_append, skip]
      subst hstart
      cases after with
      | nil => simp [skip]
      | cons second after => simpa using ih (by simpa using hlast) h
  | case3 inComment blanks line after hfalse => exact absurd hstart.symm hfalse
  | case4 blanks line character after hfeed ih =>
      rw [List.cons_append, skip]
      simpa [hfeed] using ih (getLast?_of_cons hlast hfeed) h
  | case5 inComment blanks line after hcomment hfeed ih =>
      rw [List.cons_append, skip]
      simpa [hcomment] using ih (getLast?_of_cons hlast hfeed) h
  | case6 inComment blanks line after hcomment hfeed hblank ih =>
      rw [List.cons_append, skip]
      simpa [hcomment] using ih (getLast?_of_cons hlast hfeed) h
  | case7 inComment blanks line after hcomment hfeed hblank hreturn ih =>
      rw [List.cons_append, skip]
      simpa [hcomment] using ih (getLast?_of_cons hlast hfeed) h
  | case8 => cases h

/-- A gap does not go past the end of a line that has begun. -/
theorem not_mem_of_rest_skip_eq_nil (h : (skip false inComment blanks line text).rest = []) :
    '\n' ∉ text := by
  generalize hstart : false = lineStart at h
  fun_induction skip lineStart inComment blanks line text with
  | case1 => exact List.not_mem_nil
  | case2 inComment blanks line after htrue ih =>
      exact absurd (hstart.trans htrue) Bool.false_ne_true
  | case3 => cases h
  | case4 blanks line character after hfeed ih => simp [Ne.symm hfeed, ih h]
  | case5 inComment blanks line after hcomment hfeed ih => simp [ih h]
  | case6 inComment blanks line after hcomment hfeed hblank ih => simp [ih h]
  | case7 inComment blanks line after hcomment hfeed hblank hreturn ih => simp [ih h]
  | case8 => cases h

/-- A gap is the front of a text. -/
theorem exists_append_rest_skip (lineStart inComment : Bool) (blanks line : Nat)
    (text : List Char) :
    ∃ passed, text = passed ++ (skip lineStart inComment blanks line text).rest := by
  fun_induction skip lineStart inComment blanks line text with
  | case1 => exact ⟨[], rfl⟩
  | case2 _ _ _ _ _ ih | case4 _ _ _ _ _ ih | case5 _ _ _ _ _ _ ih | case6 _ _ _ _ _ _ _ ih
  | case7 _ _ _ _ _ _ _ _ ih =>
      obtain ⟨passed, hpassed⟩ := ih
      exact ⟨_ :: passed, congrArg (_ :: ·) hpassed⟩
  | case3 => exact ⟨[], rfl⟩
  | case8 => exact ⟨[], rfl⟩

/-- The number of the line makes no difference. -/
theorem skip_line (lineStart inComment : Bool) (blanks line other : Nat) (text : List Char) :
    (skip lineStart inComment blanks other text).blanks =
        (skip lineStart inComment blanks line text).blanks ∧
      (skip lineStart inComment blanks other text).rest =
        (skip lineStart inComment blanks line text).rest := by
  fun_induction skip lineStart inComment blanks line text generalizing other with
  | case1 => exact ⟨rfl, rfl⟩
  | case2 inComment blanks line after hstart ih =>
      rw [skip]
      simpa [hstart] using ih (other + 1)
  | case3 inComment blanks line after hstart =>
      rw [skip]
      simp [hstart]
  | case4 blanks line character after hfeed ih =>
      rw [skip]
      simpa [hfeed] using ih other
  | case5 inComment blanks line after hcomment hfeed ih =>
      rw [skip]
      simpa [hcomment] using ih other
  | case6 inComment blanks line after hcomment hfeed hblank ih =>
      rw [skip]
      simpa [hcomment] using ih other
  | case7 inComment blanks line after hcomment hfeed hblank hreturn ih =>
      rw [skip]
      simpa [hcomment] using ih other
  | case8 inComment blanks line character after hfeed hcomment hblank hreturn hhash =>
      rw [skip]
      simp [hcomment, hfeed, hblank, hreturn, hhash]

end Gap

namespace Scanner

variable {scanner other next : Scanner} {text suffix : List Char} {words more : List Token}

/-! ## Scanners at like places -/

/-- A scanner loads the same batch as another one that stands before the same lexeme, with a
suffix behind it that does not change how lexemes are read. -/
theorem load_of_gap {first : Located} {following : List Located}
    (hload : scanner.load = .batch first following next)
    (hstart : other.lineStart = scanner.lineStart) (hdepth : other.depth = scanner.depth)
    (hblanks : other.gap.blanks = scanner.gap.blanks)
    (hrest : other.gap.rest = scanner.gap.rest ++ suffix)
    (hstable : ∀ {head rest token breaks after}, scanner.gap.rest = head :: rest →
      Lexeme.read head rest = .token token breaks after →
      Lexeme.read head (rest ++ suffix) = .token token breaks (after ++ suffix)) :
    ∃ first' following' line, other.load =
        .batch first' following' ⟨next.rest ++ suffix, line, next.depth, next.lineStart⟩ ∧
      first'.token :: following'.map Located.token =
        first.token :: following.map Located.token := by
  have hloads := loads_load scanner
  rw [hload] at hloads
  cases hloads with
  | shift hgap hbegins hlevel =>
      rw [hgap] at hrest
      have hload' := (Loads.shift hrest (hstart.trans hbegins) (by rwa [hblanks, hdepth])).eq
      rw [hblanks, hdepth] at hload'
      exact ⟨_, _, _, hload', by simp⟩
  | newline hgap hbegun =>
      rw [hgap] at hrest
      have hload' := (Loads.newline hrest (hstart.trans hbegun)).eq
      rw [hdepth] at hload'
      exact ⟨_, _, _, hload', rfl⟩
  | lexeme hgap hlevel hread =>
      rw [hgap] at hrest
      have hload' := (Loads.lexeme hrest (by rwa [hstart, hblanks, hdepth])
        (hstable hgap hread)).eq
      rw [hdepth] at hload'
      exact ⟨_, _, _, hload', rfl⟩

theorem gap_line (scanner : Scanner) (line : Nat) :
    (gap { scanner with line := line }).blanks = scanner.gap.blanks ∧
      (gap { scanner with line := line }).rest = scanner.gap.rest :=
  Gap.skip_line scanner.lineStart false 0 scanner.line line scanner.rest

/-- The number of the line makes no difference to the tokens. -/
theorem Delivers.of_line (h : Delivers scanner words) (line : Nat) :
    Delivers { scanner with line := line } words := by
  induction h generalizing line with
  | @last scanner closing final hload =>
      obtain ⟨hblanks, hrest⟩ := gap_line scanner line
      rw [ending_of_load hload]
      have hloads := loads_load scanner
      rw [hload] at hloads
      cases hloads with
      | ends hgap => exact .of_finish (Loads.ends (hrest.trans hgap)).eq
      | unclosed hgap hlevel hread =>
          rw [← hblanks] at hlevel
          exact .of_finish (Loads.unclosed (hrest.trans hgap) hlevel hread).eq
  | @batch scanner next first following words hload hnext ih =>
      obtain ⟨hblanks, hrest⟩ := gap_line scanner line
      obtain ⟨first', following', line', hload', htokens⟩ :=
        @load_of_gap scanner { scanner with line := line } next [] first following hload rfl rfl
          hblanks (by rw [List.append_nil, hrest]) (by simp)
      rw [List.append_nil] at hload'
      rw [← htokens]
      exact .batch hload' (ih line')

/-! ## The first text -/

/-- What is left ends with a line feed in the code, or nothing is left and no line has begun. -/
structure Settled (scanner : Scanner) : Prop where
  /-- No comment and no string literal is open at the end. -/
  region : Region.after .code scanner.rest = .code
  /-- The last line is ended. -/
  line : scanner.rest.getLast? = some '\n' ∨ scanner.rest = [] ∧ scanner.lineStart = true

theorem settled_ofChars (h : text = [] ∨ Region.EndsLine text) : Settled (ofChars text) := by
  rcases h with rfl | h
  · exact ⟨rfl, .inr ⟨rfl, rfl⟩⟩
  · exact ⟨h.2, .inl h.1⟩

/-- What is left behind the gap ends in the same way. -/
theorem Settled.endsLine {first : Char} {rest : List Char} (h : Settled scanner)
    (hgap : scanner.gap.rest = first :: rest) : Region.EndsLine (first :: rest) := by
  have hregion := Region.after_rest_skip hgap
  rw [if_neg Bool.false_ne_true, h.region] at hregion
  refine ⟨?_, hregion.symm⟩
  obtain ⟨passed, hpassed⟩ :=
    Gap.exists_append_rest_skip scanner.lineStart false 0 scanner.line scanner.rest
  rw [← gap, hgap] at hpassed
  rcases h.line with hlast | hnil
  · rw [hpassed] at hlast
    simpa using hlast
  · rw [hnil.1] at hpassed
    exact absurd hpassed.symm (by simp)

/-- A lexeme ends before a line feed that ends the text. -/
theorem getLast?_of_read {first : Char} {rest after : List Char} {token : Token} {breaks : Nat}
    (hlast : (first :: rest).getLast? = some '\n')
    (hread : Lexeme.read first rest = .token token breaks after) :
    after.getLast? = some '\n' := by
  obtain ⟨more, hrest, hspells, -⟩ := Lexeme.read_eq_token_iff.mp hread
  rw [hrest, ← List.cons_append] at hlast
  cases after with
  | nil =>
      rw [List.append_nil] at hlast
      exact absurd hlast hspells.getLast?_ne
  | cons head tail => rwa [List.getLast?_append_cons] at hlast

/-- A lexeme does not see what stands behind more of the text. -/
theorem read_before {first : Char} {rest after : List Char} {token : Token} {breaks : Nat}
    (hread : Lexeme.read first rest = .token token breaks after) (hafter : after ≠ [])
    (suffix : List Char) :
    Lexeme.read first (rest ++ suffix) = .token token breaks (after ++ suffix) := by
  obtain ⟨more, hrest, hspells, hbreaks, hends⟩ := Lexeme.read_eq_token_iff.mp hread
  obtain ⟨head, tail, rfl⟩ := List.exists_cons_of_ne_nil hafter
  refine Lexeme.read_eq_token_iff.mpr ⟨more, ?_, hspells, hbreaks, hends⟩
  rw [hrest, List.append_assoc]

/-- A batch leaves what it was taken from settled. -/
theorem Settled.batch {first : Located} {following : List Located} (h : Settled scanner)
    (hload : scanner.load = .batch first following next) : Settled next := by
  have hloads := loads_load scanner
  rw [hload] at hloads
  cases hloads with
  | shift hgap hbegins hlevel =>
      obtain ⟨hlast, hregion⟩ := h.endsLine hgap
      exact ⟨hregion, .inl hlast⟩
  | @newline rest hgap hbegun =>
      obtain ⟨hlast, hregion⟩ := h.endsLine hgap
      refine ⟨hregion, ?_⟩
      cases rest with
      | nil => exact .inr ⟨rfl, rfl⟩
      | cons head tail => exact .inl (by simpa using hlast)
  | @lexeme head rest after token breaks hgap hlevel hread =>
      obtain ⟨hlast, hregion⟩ := h.endsLine hgap
      refine ⟨?_, .inl (getLast?_of_read hlast hread)⟩
      obtain ⟨more, hrest, hspells, -⟩ := Lexeme.read_eq_token_iff.mp hread
      rw [hrest, ← List.cons_append, Region.after_append, Region.after_of_spells hspells]
        at hregion
      exact hregion

theorem exists_gap_of_batch {first : Located} {following : List Located}
    (hload : scanner.load = .batch first following next) :
    ∃ head rest, scanner.gap.rest = head :: rest := by
  cases hgap : scanner.gap.rest with
  | nil =>
      rw [load_of_nil hgap] at hload
      cases hload
  | cons head rest => exact ⟨head, rest, rfl⟩

/-- What a scanner delivers of a text with another text behind it.  The marks that close its
blocks are delivered with the other text, at the start of a line. -/
theorem Delivers.append (h : Delivers scanner words) (hsettled : Settled scanner)
    (hmore : ∀ line depth, (depth ≠ 0 → [.dedent, .eof] <:+ words) →
      Delivers ⟨text, line, depth, true⟩ (List.replicate depth .dedent ++ more)) :
    ∃ before, words = before ++ [.eof] ∧
      Delivers { scanner with rest := scanner.rest ++ text } (before ++ more) := by
  induction h with
  | @last scanner closing line hload =>
      rw [ending_of_load hload] at hmore ⊢
      have hloads := loads_load scanner
      rw [hload] at hloads
      cases hloads with
      | ends hgap =>
          -- a line that has begun would have its line feed left
          have hstart : scanner.lineStart = true := by
            by_contra hbegun
            rw [Bool.not_eq_true] at hbegun
            have hlast := hsettled.line.resolve_right fun hnil => by simp [hbegun] at hnil
            rw [gap, hbegun] at hgap
            exact Gap.not_mem_of_rest_skip_eq_nil hgap (List.mem_of_getLast? hlast)
          have hgap' : gap { scanner with rest := scanner.rest ++ text } =
              gap ⟨text, scanner.gap.line, scanner.depth, true⟩ := by
            rw [gap, hstart] at hgap
            rcases hsettled.line with hlast | hnil
            · rw [gap, gap, gap, hstart]
              exact Gap.skip_append_of_nil hgap hlast
            · rw [gap, gap, gap, hnil.1, hnil.2]
              rfl
          refine ⟨List.replicate scanner.depth .dedent, by simp [ending, hstart], ?_⟩
          refine (hmore scanner.gap.line scanner.depth ?_).of_load_eq ?_
          · intro hdepth
            obtain ⟨count, hcount⟩ := Nat.exists_eq_succ_of_ne_zero hdepth
            rw [ending, hstart, hcount, List.replicate_succ']
            exact ⟨List.replicate count .dedent, by simp⟩
          · rw [load_eq, load_eq, hgap']
            simp only [hstart]
      | unclosed hgap hlevel hread =>
          exact absurd (hsettled.endsLine hgap).2 (Region.after_ne_code_of_unclosed hread)
  | @batch scanner next first following words hload hnext ih =>
      obtain ⟨before, hwords, hdelivers⟩ := ih (hsettled.batch hload) fun line depth hsuffix =>
        hmore line depth fun hdepth => (hsuffix hdepth).trans (List.suffix_append _ _)
      obtain ⟨head, rest, hgap⟩ := exists_gap_of_batch hload
      have hlonger : gap { scanner with rest := scanner.rest ++ text } =
          ⟨scanner.gap.blanks, scanner.gap.line, scanner.gap.rest ++ text⟩ := by
        rw [hgap]
        exact Gap.skip_append_of_cons hgap
      obtain ⟨first', following', line, hload', htokens⟩ :=
        @load_of_gap scanner { scanner with rest := scanner.rest ++ text } next text first following
          hload rfl rfl (by rw [hlonger]) (by rw [hlonger])
          fun hgap hread => read_before hread (fun hnil => by
            have hlast := getLast?_of_read (hsettled.endsLine hgap).1 hread
            simp [hnil] at hlast) text
      refine ⟨first.token :: following.map Located.token ++ before, ?_, ?_⟩
      · rw [hwords, List.append_assoc]
      · rw [List.append_assoc, ← htokens]
        exact .batch hload' (hdelivers.of_line line)

/-! ## The second text -/

/-- The next lexeme would be a string literal, but it is not closed. -/
def BeginsUnclosed (scanner : Scanner) : Prop :=
  ∃ first rest, scanner.gap.rest = first :: rest ∧ Lexeme.read first rest = .unclosed

instance (scanner : Scanner) : Decidable (BeginsUnclosed scanner) :=
  match hgap : scanner.gap.rest with
  | [] => isFalse fun ⟨_, _, hrest, _⟩ => List.cons_ne_nil _ _ (hrest.symm.trans hgap)
  | first :: rest =>
    decidable_of_iff (Lexeme.read first rest = .unclosed)
      ⟨fun hread => ⟨first, rest, hgap, hread⟩, fun ⟨_, _, hrest, hread⟩ => by
        cases hgap.symm.trans hrest
        exact hread⟩

/-- Where a text begins at a greater depth, the marks that lead back come first. -/
theorem Delivers.deepen (h : Delivers (ofChars text) words) (hindent : words.head? ≠ some .indent)
    (depth line : Nat) (hclosed : depth ≠ 0 → ¬ BeginsUnclosed (ofChars text)) :
    Delivers ⟨text, line, depth, true⟩ (List.replicate depth .dedent ++ words) := by
  have hmoved := h.of_line line
  rw [ofChars] at hmoved
  by_cases hdepth : depth = 0
  · rw [hdepth, List.replicate_zero, List.nil_append]
    exact hmoved
  obtain ⟨-, hline⟩ := gap_line (ofChars text) line
  have hloads := loads_load ⟨text, line, 0, true⟩
  cases hmoved with
  | last hload =>
      have hwords := ending_of_load hload
      rw [hload] at hloads
      cases hloads with
      | ends hgap =>
          have hends : Loads ⟨text, line, depth, true⟩ _ := .ends hgap
          rw [hwords]
          exact .of_finish hends.eq
      | unclosed hgap hlevel hread =>
          exact absurd ⟨_, _, hline.symm.trans hgap, hread⟩ (hclosed hdepth)
  | @batch _ _ _ _ words hload hnext =>
      rw [hload] at hloads
      cases hloads with
      | shift hgap hbegins hlevel =>
          -- the text would begin with a block
          simp [Nat.pos_of_ne_zero hlevel] at hindent
      | newline hgap hbegun => cases hbegun
      | @lexeme first rest after token breaks hgap hlevel hread =>
          have hlevel' : (gap ⟨text, line, depth, true⟩).blanks / indentWidth = 0 := hlevel rfl
          have hmarks : marks depth 0 = List.replicate depth .dedent := by simp [marks]
          have hshift := @Delivers.of_shift ⟨text, line, depth, true⟩ (token :: words) first rest
            hgap rfl
          rw [hlevel', hmarks] at hshift
          exact hshift (Ne.symm hdepth) (.of_read hread hnext)

/-! ## Both texts -/

/-- Two texts, one behind the other, are delivered as the tokens of the first one without the
end of the source, and then those of the second one. -/
theorem delivers_append {second : List Char} (hend : text = [] ∨ Region.EndsLine text)
    (h : Delivers (ofChars text) words) (hsecond : Delivers (ofChars second) more)
    (hindent : more.head? ≠ some .indent)
    (hclosed : [.dedent, .eof] <:+ words → ¬ BeginsUnclosed (ofChars second)) :
    ∃ before, words = before ++ [.eof] ∧ Delivers (ofChars (text ++ second)) (before ++ more) :=
  h.append (settled_ofChars hend) fun line depth hsuffix =>
    hsecond.deepen hindent depth line fun hdepth => hclosed (hsuffix hdepth)

end Scanner

end Offside
