import Offside.Proofs.Ending.Clock
import Offside.Proofs.Scanning.Stream

/-!
# What a cursor shows

Every cursor shows some tape, wherever it stands (`exists_shows`): a batch brings no more tokens
than `Scanner.weight` goes down by, so the cursor comes to the end of the source or to a fault.
The cursor on the first token of a text shows the tape of the text (`shows_of_ofScanner`).
-/

namespace Offside

/-! ## How much a scanner can deliver -/

theorem Gap.blanks_add_length_rest_skip_le (lineStart inComment : Bool) (blanks line : Nat)
    (text : List Char) :
    (skip lineStart inComment blanks line text).blanks +
      (skip lineStart inComment blanks line text).rest.length ≤ blanks + text.length := by
  fun_induction skip lineStart inComment blanks line text <;>
    simp only [List.length_cons, List.length_nil, Nat.le_refl] <;> omega

namespace Scanner

/-- How many tokens are left at most.  A character may be a token and, in a margin, half a level
that is opened here and closed later; the line and the source have an end as well. -/
def weight (scanner : Scanner) : Nat :=
  2 * scanner.rest.length + scanner.depth + 2

variable {scanner next : Scanner} {first : Located} {more closing : List Located} {line : Nat}

theorem weight_lt_of_load (h : scanner.load = .batch first more next) :
    more.length + next.weight < scanner.weight := by
  have hgap := Gap.blanks_add_length_rest_skip_le scanner.lineStart false 0 scanner.line
    scanner.rest
  change scanner.gap.blanks + scanner.gap.rest.length ≤ _ at hgap
  unfold weight
  generalize hload : scanner.load = load at h
  cases loads_iff.mpr hload with
  | shift hrest hstart hlevel =>
      -- a level that is opened takes two blanks, and a level that is closed is not open any more
      have hblanks : indentWidth * (scanner.gap.blanks / indentWidth) ≤ scanner.gap.blanks :=
        Nat.mul_div_le _ _
      rw [indentWidth] at hblanks hlevel
      unfold Scanner.shift at h
      cases h
      rw [hrest] at hgap
      rw [List.length_replicate, indentWidth]
      dsimp only
      split <;> omega
  | newline hrest =>
      cases h
      rw [hrest, List.length_cons] at hgap
      simp only [List.length_nil]
      omega
  | lexeme hrest hlevel hread =>
      cases h
      have hlength := Lexeme.length_rest_lt_of_read hread
      rw [hrest] at hgap
      simp only [List.length_nil]
      omega
  | ends | unclosed | overlong | stray => cases h

theorem length_lt_of_load (h : scanner.load = .last closing line) :
    closing.length < scanner.weight := by
  rw [closing_of_load h, weight, List.length_append, List.length_replicate]
  split
  · rw [List.length_nil]
    omega
  · rw [List.length_singleton]
    omega

/-- The end of the source comes with the last batch. -/
theorem ne_eof_of_load (h : scanner.load = .batch first more next) :
    ∀ token ∈ first :: more, token.token ≠ .eof := by
  obtain ⟨⟨count, rfl⟩, heof, -, -⟩ := replicate_of_load h
  intro token hmem
  rw [← List.replicate_succ] at hmem
  rw [List.eq_of_mem_replicate hmem]
  exact heof

end Scanner

/-! ## Tokens at the front -/

namespace Tape

variable {rest tape : Tape} {index passed : Nat} {taken : List Located} {scanner : Scanner}

@[simp] theorem length_layBefore :
    (layBefore rest index taken).length = taken.length + rest.length := by
  induction taken generalizing rest index with
  | nil => exact (Nat.zero_add _).symm
  | cons last earlier ih =>
      rw [layBefore, ih, length, List.length_cons]
      omega

/-- The first one of the tokens that are laid out comes first. -/
theorem layBefore_concat {first : Located} (hindex : index = passed + 1 + taken.length) :
    layBefore rest index (taken ++ [first]) =
      more first.token ⟨first.line, passed⟩ (layBefore rest index taken) := by
  induction taken generalizing rest index with
  | nil =>
      subst hindex
      rfl
  | cons last earlier ih =>
      rw [List.length_cons] at hindex
      rw [List.cons_append, layBefore, ih (by omega), layBefore]

/-- Of two tokens or more, the first one comes first. -/
theorem layFrom_concat {first : Located} (htaken : taken ≠ [])
    (hindex : index = passed + 1 + taken.length) :
    layFrom (taken ++ [first]) index scanner =
      (layFrom taken index scanner).map (more first.token ⟨first.line, passed⟩) := by
  induction hmeasure : scanner.measure using Nat.strong_induction_on
    generalizing taken index scanner with
  | _ measure ih =>
      subst hmeasure
      cases hload : scanner.load with
      | batch head following next =>
          rw [layFrom_of_batch hload, layFrom_of_batch hload, ← List.cons_append,
            ← List.append_assoc]
          refine ih _ (Scanner.measure_lt_of_load hload) (by simp) ?_ rfl
          simp only [List.length_append, List.length_reverse, List.length_cons]
          omega
      | last closing line =>
          rw [layFrom_of_last hload, layFrom_of_last hload, ← List.append_assoc, layBefore_concat]
          · rfl
          · rw [List.length_append, List.length_reverse]
            omega
      | fault fault next =>
          obtain ⟨last, earlier, rfl⟩ := List.exists_cons_of_ne_nil htaken
          have hindex' : index - 1 = passed + 1 + earlier.length := by
            rw [hindex, List.length_cons]
            omega
          rw [layFrom_of_fault hload, layFrom_of_fault hload, List.cons_append]
          dsimp only
          rw [layBefore_concat hindex']
          rfl

/-- Where a token was taken there is a tape, and at worst a fault ends it.  It holds no more tokens
than those that were taken and those that the scanner delivers. -/
theorem exists_layFrom (htaken : taken ≠ []) :
    ∃ tape, layFrom taken index scanner = .ok tape ∧
      tape.length < taken.length + scanner.weight := by
  induction hmeasure : scanner.measure using Nat.strong_induction_on
    generalizing taken index scanner with
  | _ measure ih =>
      subst hmeasure
      cases hload : scanner.load with
      | batch first more next =>
          have hweight := Scanner.weight_lt_of_load hload
          obtain ⟨tape, htape, hlength⟩ := ih _ (Scanner.measure_lt_of_load hload)
            (show more.reverse ++ first :: taken ≠ [] by simp) rfl
          refine ⟨tape, (layFrom_of_batch hload).trans htape, ?_⟩
          rw [List.length_append, List.length_reverse, List.length_cons] at hlength
          omega
      | last closing line =>
          have hweight := Scanner.length_lt_of_load hload
          refine ⟨_, layFrom_of_last hload, ?_⟩
          rw [length_layBefore, List.length_append, List.length_reverse, length]
          omega
      | fault fault next =>
          obtain ⟨last, earlier, rfl⟩ := List.exists_cons_of_ne_nil htaken
          refine ⟨_, layFrom_of_fault hload, ?_⟩
          rw [length_layBefore, length, List.length_cons]
          omega

end Tape

/-! ## Every cursor shows a tape -/

namespace Cursor

open Tape (layBefore layFrom layBefore_concat layFrom_concat layFrom_of_batch layFrom_of_last
  layFrom_of_fault)

variable {passed pending closing : List Located} {current : Located} {scanner : Scanner}
  {line beforeLast index : Nat} {tape : Tape}

/-- What a cursor shows behind its current token. -/
theorem shows_more {cursor : Cursor} {token : Token} {rest : Tape}
    (hnext : cursor.next.1 = .ok token) (hrest : cursor.next.2.Shows rest) :
    cursor.Shows
      (.more cursor.current.token ⟨cursor.current.line, cursor.passed.length⟩ rest) :=
  ⟨⟨rfl, rfl⟩, token, hnext, hrest⟩

/-- In the batch that ends the stream, the tokens of the batch are shown. -/
theorem shows_closing (hindex : index = passed.length + 1 + closing.length) :
    Shows ⟨passed, current, closing ++ [⟨.eof, line⟩], scanner⟩
      (layBefore (.ended ⟨line, index⟩ beforeLast) index (closing.reverse ++ [current])) := by
  induction closing generalizing passed current with
  | nil =>
      subst hindex
      exact shows_more rfl ⟨⟨rfl, rfl⟩, rfl⟩
  | cons first more ih =>
      have hfront : index = passed.length + 1 + (first :: more).reverse.length := by
        rw [hindex, List.length_reverse]
      have hbehind : index = (current :: passed).length + 1 + more.length := by
        rw [hindex, List.length_cons, List.length_cons]
        omega
      rw [layBefore_concat hfront, List.reverse_cons]
      exact shows_more rfl (ih hbehind)

theorem shows_arriveLast (hindex : index = passed.length + closing.length) :
    Shows (arriveLast passed closing line)
      (layBefore (.ended ⟨line, index⟩ beforeLast) index closing.reverse) := by
  cases closing with
  | nil => exact ⟨⟨rfl, hindex.symm⟩, rfl⟩
  | cons first more =>
      rw [List.reverse_cons]
      refine shows_closing ?_
      rw [hindex, List.length_cons]
      omega

/-- What is laid out behind the current token is what the cursor shows when it has moved on. -/
theorem shows_behind {cursor : Cursor} {upcoming : Located} {later : List Located}
    (hnext : cursor.next =
      (.ok upcoming.token, ⟨cursor.current :: cursor.passed, upcoming, later, scanner⟩))
    (hindex : index = cursor.passed.length + 1 + 1 + later.length)
    (h : layFrom (later.reverse ++ [upcoming] ++ [cursor.current]) index scanner = .ok tape)
    (hrest : ∀ rest, layFrom (later.reverse ++ [upcoming]) index scanner = .ok rest →
      Shows ⟨cursor.current :: cursor.passed, upcoming, later, scanner⟩ rest) :
    cursor.Shows tape := by
  have hfront : index = cursor.passed.length + 1 + (later.reverse ++ [upcoming]).length := by
    rw [hindex, List.length_append, List.length_reverse, List.length_singleton]
    omega
  rw [layFrom_concat (by simp) hfront] at h
  cases hlaid : layFrom (later.reverse ++ [upcoming]) index scanner with
  | error fault =>
      rw [hlaid] at h
      cases h
  | ok rest =>
      rw [hlaid] at h
      cases h
      refine shows_more (congrArg Prod.fst hnext) ?_
      rw [hnext]
      exact hrest rest hlaid

/-- A cursor that has not loaded the end of the source shows the tokens that it has loaded and
those that its scanner goes on to deliver. -/
theorem shows_of_layFrom (hplain : ∀ token ∈ current :: pending, token.token ≠ .eof)
    (hindex : index = passed.length + 1 + pending.length)
    (h : layFrom (pending.reverse ++ [current]) index scanner = .ok tape) :
    Shows ⟨passed, current, pending, scanner⟩ tape := by
  induction hremaining : pending.length + scanner.weight using Nat.strong_induction_on
    generalizing passed current pending scanner index tape with
  | _ remaining ih =>
      subst hremaining
      cases pending with
      | cons upcoming later =>
          have hbehind : index = passed.length + 1 + 1 + later.length := by
            rw [hindex, List.length_cons]
            omega
          rw [List.reverse_cons] at h
          refine shows_behind rfl hbehind h fun rest hrest => ?_
          refine ih _ ?_ (fun token hmem => hplain token (.tail _ hmem)) hbehind hrest rfl
          exact Nat.add_lt_add_right (Nat.lt_succ_self _) _
      | nil =>
          rw [List.reverse_nil, List.nil_append] at h
          have hnext : next ⟨passed, current, [], scanner⟩ =
              receive ⟨passed, current, [], scanner⟩ scanner.load :=
            next_of_load rfl (hplain current (.head _))
          cases hload : scanner.load with
          | batch first more following =>
              have hweight := Scanner.weight_lt_of_load hload
              rw [hload] at hnext
              rw [layFrom_of_batch hload, List.append_cons] at h
              have hbehind : index + 1 + more.length = passed.length + 1 + 1 + more.length := by
                rw [hindex, List.length_nil]
              refine shows_behind hnext hbehind h fun rest hrest => ?_
              refine ih _ ?_ (Scanner.ne_eof_of_load hload) hbehind hrest rfl
              rw [List.length_nil]
              omega
          | last closing line =>
              rw [hload] at hnext
              rw [layFrom_of_last hload] at h
              cases h
              have hfront : index + closing.length =
                  passed.length + 1 + closing.reverse.length := by
                rw [hindex, List.length_reverse, List.length_nil]
              rw [layBefore_concat hfront]
              refine shows_more (congrArg Prod.fst hnext) ?_
              rw [hnext]
              refine shows_arriveLast ?_
              rw [hindex, List.length_cons, List.length_nil]
          | fault fault following =>
              rw [hload] at hnext
              rw [layFrom_of_fault hload] at h
              cases h
              exact ⟨⟨rfl, hindex ▸ rfl⟩, congrArg Prod.fst hnext⟩

/-- There is a first cursor where there is a tape, and it shows the tape; otherwise both meet the
same fault. -/
theorem shows_of_ofScanner (scanner : Scanner) :
    (∃ fault, ofScanner scanner = .error fault ∧ Tape.ofScanner scanner = .error fault) ∨
      ∃ cursor tape, ofScanner scanner = .ok cursor ∧ Tape.ofScanner scanner = .ok tape ∧
        cursor.Shows tape ∧ tape.length < scanner.weight := by
  unfold ofScanner Tape.ofScanner
  cases hload : scanner.load with
  | batch first more next =>
      have hweight := Scanner.weight_lt_of_load hload
      have hlaid : ∃ tape, layFrom (more.reverse ++ [first]) (0 + 1 + more.length) next = .ok tape ∧
          tape.length < (more.reverse ++ [first]).length + next.weight :=
        Tape.exists_layFrom (by simp)
      obtain ⟨tape, htape, hlength⟩ := hlaid
      rw [List.length_append, List.length_reverse, List.length_singleton] at hlength
      refine .inr ⟨_, tape, rfl, (layFrom_of_batch hload).trans htape, ?_, by omega⟩
      exact shows_of_layFrom (Scanner.ne_eof_of_load hload) rfl htape
  | last closing line =>
      have hweight := Scanner.length_lt_of_load hload
      refine .inr ⟨_, _, rfl, layFrom_of_last hload, ?_⟩
      rw [List.append_nil]
      refine ⟨shows_arriveLast rfl, ?_⟩
      rw [Tape.length_layBefore, List.length_reverse]
      exact hweight
  | fault fault next => exact .inl ⟨fault, rfl, layFrom_of_fault hload⟩

/-! ## Wherever a cursor stands -/

/-- How many tokens a cursor goes over at most. -/
def remaining (cursor : Cursor) : Nat :=
  cursor.pending.length + cursor.scanner.weight

/-- A cursor shows some tape, even one that no text leads to. -/
theorem exists_shows (cursor : Cursor) :
    ∃ tape, cursor.Shows tape ∧ tape.length ≤ cursor.remaining := by
  induction hremaining : cursor.remaining using Nat.strong_induction_on generalizing cursor with
  | _ remaining ih =>
      subst hremaining
      have hmore {token : Token} (hnext : cursor.next.1 = .ok token)
          (hlt : cursor.next.2.remaining < cursor.remaining) :
          ∃ tape, cursor.Shows tape ∧ tape.length ≤ cursor.remaining := by
        obtain ⟨rest, hrest, hlength⟩ := ih _ hlt cursor.next.2 rfl
        exact ⟨_, shows_more hnext hrest, Nat.lt_of_le_of_lt hlength hlt⟩
      obtain ⟨passed, current, pending, scanner⟩ := cursor
      cases pending with
      | cons upcoming later => exact hmore rfl (Nat.add_lt_add_right (Nat.lt_succ_self _) _)
      | nil =>
          by_cases heof : current.token = .eof
          · obtain ⟨token, line⟩ := current
            subst heof
            exact ⟨.ended ⟨line, passed.length⟩ 0, ⟨⟨rfl, rfl⟩, rfl⟩, Nat.zero_le _⟩
          have hnext : next ⟨passed, current, [], scanner⟩ =
              receive ⟨passed, current, [], scanner⟩ scanner.load :=
            next_of_load rfl heof
          cases hload : scanner.load with
          | batch first more following =>
              rw [hload] at hnext
              refine hmore (congrArg Prod.fst hnext) ?_
              rw [hnext]
              exact (Scanner.weight_lt_of_load hload).trans_eq (Nat.zero_add _).symm
          | last closing line =>
              have hweight := Scanner.length_lt_of_load hload
              rw [hload] at hnext
              have hlast : (next ⟨passed, current, [], scanner⟩).2.Shows
                  (layBefore (.ended ⟨line, passed.length + 1 + closing.length⟩ 0)
                    (passed.length + 1 + closing.length) closing.reverse) := by
                rw [hnext]
                exact shows_arriveLast rfl
              refine ⟨_, shows_more (congrArg Prod.fst hnext) hlast, ?_⟩
              rw [Tape.length, Tape.length_layBefore, List.length_reverse]
              exact hweight.trans_eq (Nat.zero_add _).symm
          | fault fault following =>
              rw [hload] at hnext
              exact ⟨.broken current.token ⟨current.line, passed.length⟩ fault,
                ⟨⟨rfl, rfl⟩, congrArg Prod.fst hnext⟩, Nat.zero_le _⟩

end Cursor

end Offside
