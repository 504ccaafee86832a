import Mathlib.Data.List.Chain
import Offside.Proofs.Reading.Tape

/-!
# The layout of a text

Not every sequence of tokens is that of a text.  The scanner puts an `indent` only
before a line that begins with a lexeme, so no block is empty, and the end of the source
is the last token.  `Tape.Laid` says this of a tape, and `laid_of_ofString` says that the
tape of a text is such a tape.

The proof follows the scanner from batch to batch.  Behind an `indent` the scanner is
not at the start of a line any more, and only there does a line of less depth begin.

The places of the tokens count them (`Counted`), so the place where a reading stands says
which tokens it has passed (`Passes.eq_take`).
-/

namespace Offside

/-- Two tokens may stand side by side. -/
def Token.Precedes (first second : Token) : Prop :=
  first ≠ .eof ∧ (first = .indent → second ≠ .dedent)

/-- The end of the source may stand behind every other token. -/
theorem Token.precedes_eof {token : Token} (h : token ≠ .eof) : token.Precedes .eof :=
  ⟨h, fun _ => by decide⟩

/-! ## Batches -/

namespace Scanner

/-- A batch repeats one token, which is not the end of the source.  Only a scanner at the
start of a line closes a block, and behind the opening of one it is not at such a start. -/
theorem replicate_of_load {scanner next : Scanner} {first : Located} {more : List Located}
    (h : scanner.load = .batch first more next) :
    (∃ count, more = List.replicate count first) ∧ first.token ≠ .eof ∧
      (first.token = .dedent → scanner.lineStart = true) ∧
      (first.token = .indent → next.lineStart = false) := by
  unfold load at h
  dsimp only at h
  split at h
  · cases h
  · split at h
    · -- the depth changes: the batch opens blocks or closes them
      rename_i hshift
      cases h
      refine ⟨⟨_, rfl⟩, ?_, fun _ => hshift.1, fun _ => rfl⟩
      dsimp only
      split <;> decide
    · split at h
      · cases h
        -- a line feed
        exact ⟨⟨0, rfl⟩, nofun, nofun, nofun⟩
      · unfold loadLexeme at h
        split at h
        · rename_i hread
          cases h
          have hlayout := Lexeme.isLayout_of_read hread
          refine ⟨⟨0, rfl⟩, ?_, ?_, fun _ => rfl⟩ <;>
            · rintro rfl
              cases hlayout
        · cases h
        · cases h
        · cases h

/-- The last batch ends the line that has begun, and then the open blocks. -/
theorem closing_of_load {scanner : Scanner} {closing : List Located} {line : Nat}
    (h : scanner.load = .last closing line) :
    closing = (if scanner.lineStart then [] else [⟨.newline, line⟩]) ++
      List.replicate scanner.depth ⟨.dedent, line⟩ := by
  unfold load at h
  dsimp only at h
  split at h
  · cases h
    rfl
  · split at h
    · cases h
    · split at h
      · cases h
      · unfold loadLexeme at h
        split at h <;> cases h
        rfl

end Scanner

/-! ## Tapes -/

namespace Tape

/-- A tape on which no block is empty and the end of the source comes last. -/
def Laid : Tape → Prop
  | ended _ _ => True
  | broken token _ _ => token ≠ .eof
  | more token _ rest => token.Precedes rest.current ∧ rest.Laid

/-- Some tokens, the last of them first, may stand where they do, and before what a scanner
delivers that is at the start of a line or not. -/
def Pending (taken : List Located) (lineStart : Bool) : Prop :=
  taken.IsChain (fun later earlier => earlier.token.Precedes later.token) ∧
    ∀ last ∈ taken.head?, last.token ≠ .eof ∧ (last.token = .indent → lineStart = false)

theorem Pending.push {taken : List Located} {token : Located} {lineStart next : Bool}
    (h : Pending taken lineStart) (heof : token.token ≠ .eof)
    (hdedent : token.token = .dedent → lineStart = true)
    (hindent : token.token = .indent → next = false) : Pending (token :: taken) next := by
  refine ⟨h.1.cons fun last hlast => ⟨(h.2 last hlast).1, fun hlastIndent htoken => ?_⟩, ?_⟩
  · -- an `indent` leaves the scanner behind the start of a line, where no block closes
    have hfalse := (h.2 last hlast).2 hlastIndent
    rw [hdedent htoken] at hfalse
    cases hfalse
  · rintro _ ⟨⟩
    exact ⟨heof, hindent⟩

/-- A token may be repeated. -/
theorem Pending.replicate {taken : List Located} {token : Located} {lineStart : Bool}
    (count : Nat) (h : Pending (token :: taken) lineStart) :
    Pending (List.replicate count token ++ token :: taken) lineStart := by
  have hself : token.token.Precedes token.token :=
    ⟨(h.2 token rfl).1, fun hindent => by rw [hindent]; decide⟩
  rw [List.append_cons, ← List.replicate_succ']
  refine ⟨List.isChain_append.mpr ⟨List.isChain_replicate_of_rel _ hself, h.1.tail, ?_⟩, ?_⟩
  · intro first hfirst last hlast
    rw [List.getLast?_replicate, if_neg (Nat.succ_ne_zero count)] at hfirst
    cases hfirst
    exact h.1.rel_head? hlast
  · rintro _ ⟨⟩
    exact h.2 token rfl

/-- The marks that end the stream may stand behind what was delivered before them. -/
theorem Pending.close {taken closing : List Located} {lineStart : Bool} {depth line : Nat}
    (h : Pending taken lineStart)
    (hclosing : closing = (if lineStart then [] else [⟨.newline, line⟩]) ++
      List.replicate depth ⟨.dedent, line⟩) :
    ∃ next, Pending (closing.reverse ++ taken) next := by
  subst hclosing
  -- once the line is ended, only marks that close blocks follow
  have hdedents {taken : List Located} (h : Pending taken true) :
      ∃ next, Pending (List.replicate depth ⟨.dedent, line⟩ ++ taken) next := by
    cases depth with
    | zero => exact ⟨true, h⟩
    | succ depth =>
        have hfirst : Pending ((⟨.dedent, line⟩ : Located) :: taken) true :=
          h.push nofun (fun _ => rfl) nofun
        refine ⟨true, ?_⟩
        rw [List.replicate_succ', ← List.append_cons]
        exact hfirst.replicate depth
  cases lineStart with
  | true =>
      rw [if_pos rfl, List.nil_append, List.reverse_replicate]
      exact hdedents h
  | false =>
      rw [if_neg Bool.false_ne_true, List.reverse_append, List.reverse_replicate,
        List.append_assoc]
      have hended : Pending (⟨.newline, line⟩ :: taken) true := h.push nofun nofun nofun
      exact hdedents hended

theorem laid_layBefore {taken : List Located} {rest : Tape} {index : Nat} (hrest : rest.Laid)
    (htaken : taken.IsChain fun later earlier => earlier.token.Precedes later.token)
    (hlast : ∀ last ∈ taken.head?, last.token.Precedes rest.current) :
    (layBefore rest index taken).Laid := by
  induction taken generalizing rest index with
  | nil => exact hrest
  | cons last earlier ih =>
      have hmore : (more last.token ⟨last.line, index - 1⟩ rest).Laid := ⟨hlast last rfl, hrest⟩
      exact ih hmore htaken.tail fun before hbefore => htaken.rel_head? hbefore

theorem laid_of_layFrom {taken : List Located} {index : Nat} {scanner : Scanner} {tape : Tape}
    (h : layFrom taken index scanner = .ok tape) (hpending : Pending taken scanner.lineStart) :
    tape.Laid := by
  induction hmeasure : scanner.measure using Nat.strong_induction_on
    generalizing taken index scanner with
  | _ measure ih =>
      subst hmeasure
      rw [layFrom] at h
      split at h
      · -- a batch is pending behind what was taken, and the scanner went on
        rename_i first following next hload
        obtain ⟨⟨count, rfl⟩, heof, hdedent, hindent⟩ := Scanner.replicate_of_load hload
        rw [List.reverse_replicate] at h
        exact ih _ (Scanner.measure_lt_of_load hload) h
          ((hpending.push heof hdedent hindent).replicate count) rfl
      · -- the source ends
        rename_i closing line hload
        cases h
        obtain ⟨next, hclosed⟩ := hpending.close (Scanner.closing_of_load hload)
        exact laid_layBefore trivial hclosed.1 fun last hlast =>
          Token.precedes_eof (hclosed.2 last hlast).1
      · split at h
        · cases h
        · -- the scanner fails behind what was taken
          rename_i last earlier
          cases h
          exact laid_layBefore (hpending.2 last rfl).1 hpending.1.tail
            fun before hbefore => hpending.1.rel_head? hbefore

/-! ## What the layout says about a reading -/

variable {tape rest : Tape}

theorem Laid.of_passes {tokens : List Token} (h : tape.Laid) (hpass : Passes tape tokens rest) :
    rest.Laid := by
  induction hpass with
  | stay => exact h
  | step token place hpass ih => exact ih h.2

/-- No block is empty. -/
theorem Laid.current_ne_dedent (h : tape.Laid) (hpass : Passes tape [.indent] rest) :
    rest.current ≠ .dedent := by
  obtain ⟨place, next, rfl, hnext⟩ := passes_cons.mp hpass
  obtain rfl := passes_nil.mp hnext
  exact h.1.2 rfl

/-- The end of the source is the last token. -/
theorem Laid.eq_ended (h : tape.Laid) (hcurrent : tape.current = .eof) :
    ∃ place beforeLast, tape = ended place beforeLast := by
  cases tape with
  | ended place beforeLast => exact ⟨place, beforeLast, rfl⟩
  | broken token place fault => exact absurd hcurrent h
  | more token place rest => exact absurd hcurrent h.1.1

/-- The tape of a text is laid out like one. -/
theorem laid_of_ofString {text : String} {tape : Tape} (h : ofString text = .ok tape) :
    tape.Laid :=
  laid_of_layFrom h ⟨.nil, nofun⟩

/-! ## How many tokens were passed -/

variable {tokens : List Token}

/-- The places of the tokens are numbered one after another. -/
def Counted : Tape → Prop
  | ended _ _ | broken _ _ _ => True
  | more _ place rest => rest.place.index = place.index + 1 ∧ rest.Counted

theorem counted_layBefore {index : Nat} {taken : List Located} (hrest : rest.Counted)
    (hindex : rest.place.index = index) (hlength : taken.length = index) :
    (layBefore rest index taken).Counted ∧ (layBefore rest index taken).place.index = 0 := by
  induction taken generalizing rest index with
  | nil =>
      subst hlength
      exact ⟨hrest, hindex⟩
  | cons last earlier ih =>
      subst hlength
      rw [List.length_cons] at hindex
      exact ih ⟨hindex, hrest⟩ rfl rfl

theorem counted_of_layFrom {taken : List Located} {index : Nat} {scanner : Scanner}
    (h : layFrom taken index scanner = .ok tape) (hlength : taken.length = index) :
    tape.Counted ∧ tape.place.index = 0 := by
  induction hmeasure : scanner.measure using Nat.strong_induction_on
    generalizing taken index scanner with
  | _ measure ih =>
      subst hmeasure
      rw [layFrom] at h
      split at h
      · rename_i first following next hload
        refine ih _ (Scanner.measure_lt_of_load hload) h ?_ rfl
        simp only [List.length_append, List.length_reverse, List.length_cons]
        omega
      · cases h
        refine counted_layBefore trivial rfl ?_
        simp only [List.length_append, List.length_reverse]
        omega
      · split at h
        · cases h
        · cases h
          rw [List.length_cons] at hlength
          exact counted_layBefore trivial rfl (by omega)

/-- The place behind some tokens. -/
theorem Passes.index_eq (h : Passes tape tokens rest) (hcounted : tape.Counted) :
    rest.place.index = tape.place.index + tokens.length := by
  induction h with
  | stay => rfl
  | step token place h ih =>
      rw [ih hcounted.2, hcounted.1, List.length_cons, Nat.add_assoc, Nat.add_comm 1]
      rfl

theorem Passes.words_append (h : Passes tape tokens rest) : tape.words = tokens ++ rest.words := by
  induction h with
  | stay => rfl
  | step token place h ih => exact congrArg (token :: ·) ih

/-- The tokens that were passed are the first ones of the text. -/
theorem Passes.eq_take {text : String} (h : Passes tape tokens rest)
    (htape : ofString text = .ok tape) : tokens = tape.words.take rest.place.index := by
  obtain ⟨hcounted, hfirst⟩ := counted_of_layFrom htape rfl
  rw [h.index_eq hcounted, hfirst, Nat.zero_add, h.words_append, List.take_left]

end Tape

end Offside
