import Offside.Proofs.Reading.Offence
import Offside.Proofs.Scanning.Order
import Offside.Proofs.Scanning.Stream

/-!
# The balance of a tape

The tokens of a tape are in the order in which a scanner delivers them, whether they lead to the end
of the source or to a fault (`regular_of_ofString`).  So where a reader stands on the tape of a
text, the marks before it and the one that is current do not contradict one another: no block is
closed that was not opened, and at the end of the source none is open.  What lies ahead closes the
blocks that are open here.
-/

namespace Offside

namespace Scanner

/-- The faults of a scanner are lexical. -/
theorem isLexical_of_load {scanner next : Scanner} {fault : SourceFault}
    (h : scanner.load = .fault fault next) : fault.cause.isLexical = true := by
  have hloads := loads_load scanner
  rw [h] at hloads
  cases hloads with
  | overlong => rfl
  | stray => rfl

end Scanner

namespace Tape

variable {scanner : Scanner} {tape here : Tape} {taken : List Located} {index : Nat}
  {text : String} {tokens : List Token} {fault : SourceFault}

/-! ## Tapes are in order -/

theorem regular_of_layFrom (h : layFrom taken index scanner = .ok tape)
    (hfits : scanner.Fits (taken.reverse.map Located.token)) :
    ∃ depth, Regular tape.words depth := by
  induction hmeasure : scanner.measure using Nat.strong_induction_on
    generalizing taken index scanner with
  | _ measure ih =>
      subst hmeasure
      rw [layFrom] at h
      split at h
      · next hload =>
          refine ih _ (Scanner.measure_lt_of_load hload) h ?_ rfl
          simpa using hfits.batch hload
      · next closing line hload =>
          cases h
          refine ⟨0, ?_⟩
          rw [words_layBefore]
          simpa [words, Tape.tokens] using hfits.last hload
      · split at h
        · cases h
        · cases h
          refine ⟨scanner.depth, ?_⟩
          rw [words_layBefore]
          simpa [words, Tape.tokens] using hfits.regular

/-- The tokens of the tape of a text are in order. -/
theorem regular_of_ofString (h : ofString text = .ok tape) : ∃ depth, Regular tape.words depth :=
  regular_of_layFrom h (.ofString text)

/-- The fault that a scanner comes to is lexical, whether there is a tape in front of it or not. -/
theorem isLexical_of_layFrom (h : layFrom taken index scanner = .error fault ∨
      ∃ tape, layFrom taken index scanner = .ok tape ∧ tape.fault? = some fault) :
    fault.cause.isLexical = true := by
  induction hmeasure : scanner.measure using Nat.strong_induction_on
    generalizing taken index scanner with
  | _ measure ih =>
      subst hmeasure
      rw [layFrom] at h
      split at h
      · next hload => exact ih _ (Scanner.measure_lt_of_load hload) h rfl
      · obtain h | ⟨tape, h, hfault⟩ := h
        · cases h
        · cases h
          rw [fault?_layBefore] at hfault
          cases hfault
      · next hload =>
          have hlexical := Scanner.isLexical_of_load hload
          split at h
          · obtain h | ⟨tape, h, -⟩ := h
            · cases h
              exact hlexical
            · cases h
          · obtain h | ⟨tape, h, hfault⟩ := h
            · cases h
            · cases h
              rw [fault?_layBefore] at hfault
              cases hfault
              exact hlexical

/-- The fault of a tape is one of the scanner. -/
theorem isLexical_of_ofString (h : ofString text = .ok tape) (hfault : tape.fault? = some fault) :
    fault.cause.isLexical = true :=
  isLexical_of_layFrom (.inr ⟨tape, h, hfault⟩)

/-- So is the fault of a text that has no tape. -/
theorem isLexical_of_ofString_eq_error (h : ofString text = .error fault) :
    fault.cause.isLexical = true :=
  isLexical_of_layFrom (.inl h)

/-! ## Where a reader stands -/

/-- So many blocks are open behind the tokens. -/
def LeavesOpen (tokens : List Token) (depth : Nat) : Prop :=
  tokens.count .indent = tokens.count .dedent + depth

theorem LeavesOpen.nil : LeavesOpen [] 0 :=
  rfl

theorem LeavesOpen.indent : LeavesOpen [.indent] 1 :=
  rfl

theorem LeavesOpen.append {more : List Token} {depth deeper : Nat} (h : LeavesOpen tokens depth)
    (hmore : LeavesOpen more deeper) : LeavesOpen (tokens ++ more) (depth + deeper) := by
  unfold LeavesOpen at h hmore ⊢
  rw [List.count_append, List.count_append, h, hmore]
  omega

theorem LeavesOpen.enclose (h : LeavesOpen tokens 0) :
    LeavesOpen (.indent :: tokens ++ [.dedent]) 0 := by
  simpa [LeavesOpen] using h

theorem exists_words_eq_cons (tape : Tape) : ∃ later, tape.words = tape.current :: later := by
  cases tape with
  | ended place beforeLast => exact ⟨[], rfl⟩
  | broken token place fault => exact ⟨[], rfl⟩
  | more token place rest => exact ⟨rest.words, rfl⟩

/-- The end of the source comes last. -/
theorem eof_mem_words (hfault : tape.fault? = none) : .eof ∈ tape.words := by
  obtain ⟨tokens, place, beforeLast, hpass⟩ := passes_of_fault?_eq_none hfault
  rw [hpass.words_eq]
  simp

section

variable {depth : Nat} (h : LeavesOpen tokens depth) (htape : ofString text = .ok tape)
  (hpass : Passes tape tokens here)
include h htape hpass

/-- Where a block is closed, one is open. -/
theorem LeavesOpen.pos_of_dedent (hcurrent : here.current = .dedent) : 0 < depth := by
  obtain ⟨final, hregular⟩ := regular_of_ofString htape
  obtain ⟨later, hlater⟩ := here.exists_words_eq_cons
  have hprefix : tokens ++ [.dedent] <+: tape.words :=
    ⟨later, by rw [hpass.words_append, hlater, hcurrent, List.append_assoc, List.singleton_append]⟩
  have hcovered := hregular.covered _ hprefix
  rw [List.count_append, List.count_append, h] at hcovered
  simp at hcovered
  omega

/-- If the source comes to its end, the tokens ahead close the blocks that are open. -/
theorem LeavesOpen.closed_ahead (hfault : here.fault? = none) :
    here.words.count .dedent = here.words.count .indent + depth := by
  obtain ⟨final, hregular⟩ := regular_of_ofString htape
  have hfinal : final = 0 :=
    hregular.closed (eof_mem_words (hpass.fault?_eq.trans hfault))
  have hbalance := hregular.balance
  rw [hpass.words_append, List.count_append, List.count_append, h, hfinal] at hbalance
  omega

/-- At the end of the source no block is open. -/
theorem LeavesOpen.eq_zero_of_eof (hcurrent : here.current = .eof) : depth = 0 := by
  obtain ⟨place, beforeLast, rfl⟩ := ((laid_of_ofString htape).of_passes hpass).eq_ended hcurrent
  simpa [words, Tape.tokens] using (h.closed_ahead htape hpass rfl).symm

end

end Tape

end Offside
