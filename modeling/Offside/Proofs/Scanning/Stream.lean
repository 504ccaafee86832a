import Offside.Proofs.Grammar.Layout
import Offside.Proofs.Scanning.Batch

/-!
# What a scanner delivers

`Delivers scanner words` says that loading one batch after the other gives these tokens, to
the end of the stream and without a fault.  The tape of a text holds the same tokens
(`delivers_ofString_iff`), so what is proved of batches carries over to whoever reads the
tape.
-/

namespace Offside

namespace Scanner

/-- The tokens of all batches that a scanner goes on to load, none of which is at fault. -/
inductive Delivers : Scanner → List Token → Prop
  | last {scanner : Scanner} {closing : List Located} {line : Nat}
      (hload : scanner.load = .last closing line) :
      Delivers scanner (closing.map Located.token ++ [.eof])
  | batch {scanner next : Scanner} {first : Located} {more : List Located} {words : List Token}
      (hload : scanner.load = .batch first more next) (hnext : Delivers next words) :
      Delivers scanner (first.token :: more.map Located.token ++ words)

variable {scanner other : Scanner} {words : List Token} {depth line : Nat} {lineStart : Bool}

/-- The tokens that end a stream, where so many blocks are open and a line has begun or not. -/
def ending (depth : Nat) (lineStart : Bool) : List Token :=
  (if lineStart then [] else [.newline]) ++ (List.replicate depth .dedent ++ [.eof])

theorem Delivers.of_finish (hload : scanner.load = finish depth lineStart line) :
    Delivers scanner (ending depth lineStart) := by
  have hlast := Delivers.last hload
  cases lineStart with
  | true => simpa [ending] using hlast
  | false => simpa [ending] using hlast

theorem ending_of_load {closing : List Located} (hload : scanner.load = .last closing line) :
    closing.map Located.token ++ [.eof] = ending scanner.depth scanner.lineStart := by
  rw [closing_of_load hload, ending]
  cases scanner.lineStart with
  | true => simp
  | false => simp

/-- A lexeme at the front of what is left is delivered as its token. -/
theorem Delivers.of_read {first : Char} {rest after : List Char} {token : Token} {breaks : Nat}
    (hread : Lexeme.read first rest = .token token breaks after)
    (h : Delivers ⟨after, line + breaks, depth, false⟩ words) :
    Delivers ⟨first :: rest, line, depth, false⟩ (token :: words) := by
  have hfirst : first ∉ [' ', '\r', '#'] := by
    intro hmem
    rw [Lexeme.read_eq_stray (List.mem_cons_of_mem _ hmem)] at hread
    cases hread
  have hgap : gap ⟨first :: rest, line, depth, false⟩ = ⟨0, line, first :: rest⟩ :=
    Gap.skip_of_not_mem hfirst fun _ => rfl
  have hload := (Loads.lexeme (congrArg Gap.rest hgap) nofun hread).eq
  rw [hgap] at hload
  exact .batch hload h

/-- A line of another depth than the one before is led by marks. -/
theorem Delivers.of_shift {first : Char} {rest : List Char}
    (hrest : scanner.gap.rest = first :: rest) (hstart : scanner.lineStart = true)
    (hlevel : scanner.gap.blanks / indentWidth ≠ scanner.depth)
    (h : Delivers ⟨first :: rest, scanner.gap.line, scanner.gap.blanks / indentWidth, false⟩
      words) :
    Delivers scanner (marks scanner.depth (scanner.gap.blanks / indentWidth) ++ words) := by
  have hdelivers := Delivers.batch (Loads.shift hrest hstart hlevel).eq h
  rwa [List.map_replicate, ← marks_eq_cons hlevel] at hdelivers

/-- Loading the same is delivering the same. -/
theorem Delivers.of_load_eq (h : Delivers scanner words) (hload : other.load = scanner.load) :
    Delivers other words := by
  cases h with
  | last hlast => exact .last (hload.trans hlast)
  | batch hbatch hnext => exact .batch (hload.trans hbatch) hnext

end Scanner

namespace Tape

open Scanner (Delivers)

variable {scanner : Scanner} {tape rest : Tape} {taken : List Located} {index : Nat}
  {words : List Token} {text : String}

/-! ## Laying out tokens -/

@[simp] theorem words_layBefore :
    (layBefore rest index taken).words = taken.reverse.map Located.token ++ rest.words := by
  induction taken generalizing rest index with
  | nil => rfl
  | cons last earlier ih =>
      rw [layBefore, ih, List.reverse_cons, List.map_append, List.append_assoc]
      rfl

@[simp] theorem fault?_layBefore : (layBefore rest index taken).fault? = rest.fault? := by
  induction taken generalizing rest index with
  | nil => rfl
  | cons last earlier ih =>
      rw [layBefore, ih]
      rfl

/-! ## The tape of a scanner -/

theorem layFrom_of_batch {next : Scanner} {first : Located} {more : List Located}
    (hload : scanner.load = .batch first more next) :
    layFrom taken index scanner =
      layFrom (more.reverse ++ first :: taken) (index + 1 + more.length) next := by
  rw [layFrom]
  split
  · next hload' =>
      rw [hload] at hload'
      cases hload'
      rfl
  · next hload' => exact absurd (hload.symm.trans hload') nofun
  · next hload' => exact absurd (hload.symm.trans hload') nofun

theorem layFrom_of_last {closing : List Located} {line : Nat}
    (hload : scanner.load = .last closing line) :
    layFrom taken index scanner =
      .ok (layBefore (ended ⟨line, index + closing.length⟩ index) (index + closing.length)
        (closing.reverse ++ taken)) := by
  rw [layFrom]
  split
  · next hload' => exact absurd (hload.symm.trans hload') nofun
  · next hload' =>
      rw [hload] at hload'
      cases hload'
      rfl
  · next hload' => exact absurd (hload.symm.trans hload') nofun

theorem layFrom_of_fault {fault : SourceFault} {next : Scanner}
    (hload : scanner.load = .fault fault next) :
    layFrom taken index scanner =
      match taken with
      | [] => .error fault
      | last :: earlier =>
        .ok (layBefore (broken last.token ⟨last.line, index - 1⟩ fault) (index - 1) earlier) := by
  rw [layFrom]
  split
  · next hload' => exact absurd (hload.symm.trans hload') nofun
  · next hload' => exact absurd (hload.symm.trans hload') nofun
  · next hload' =>
      rw [hload] at hload'
      cases hload'
      rfl

theorem layFrom_of_delivers (h : Delivers scanner words) (taken : List Located) (index : Nat) :
    ∃ tape, layFrom taken index scanner = .ok tape ∧ tape.fault? = none ∧
      tape.words = taken.reverse.map Located.token ++ words := by
  induction h generalizing taken index with
  | last hload =>
      refine ⟨_, layFrom_of_last hload, fault?_layBefore, ?_⟩
      rw [words_layBefore]
      simp [Tape.words, tokens]
  | batch hload hnext ih =>
      obtain ⟨tape, htape, hfault, hwords⟩ := ih (_ ++ _ :: taken) _
      refine ⟨tape, (layFrom_of_batch hload).trans htape, hfault, ?_⟩
      rw [hwords]
      simp

theorem exists_delivers_of_layFrom (h : layFrom taken index scanner = .ok tape)
    (hfault : tape.fault? = none) : ∃ words, Delivers scanner words := by
  induction hmeasure : scanner.measure using Nat.strong_induction_on
    generalizing taken index scanner with
  | _ measure ih =>
      subst hmeasure
      rw [layFrom] at h
      split at h
      · next hload =>
          obtain ⟨words, hnext⟩ := ih _ (Scanner.measure_lt_of_load hload) h rfl
          exact ⟨_, .batch hload hnext⟩
      · next hload => exact ⟨_, .last hload⟩
      · split at h
        · cases h
        · cases h
          rw [fault?_layBefore] at hfault
          cases hfault

/-- The tape of a text without a fault holds what the scanner delivers. -/
theorem delivers_ofString_iff :
    Delivers (.ofString text) words ↔
      ∃ tape, ofString text = .ok tape ∧ tape.fault? = none ∧ tape.words = words := by
  constructor
  · intro h
    exact layFrom_of_delivers h [] 0
  · intro h
    obtain ⟨tape, htape, hfault, hwords⟩ := h
    obtain ⟨delivered, hdelivers⟩ := exists_delivers_of_layFrom htape hfault
    obtain ⟨laid, hlaid, -, hsame⟩ := layFrom_of_delivers hdelivers [] 0
    have heq : tape = laid := Except.ok.inj (htape.symm.trans hlaid)
    have hwords' : words = delivered := by
      rw [← hwords, heq, hsame]
      rfl
    exact hwords' ▸ hdelivers

/-- The tokens that a text delivers are settled. -/
theorem eq_of_delivers {others : List Token} (h : Scanner.Delivers (.ofString text) words)
    (hother : Scanner.Delivers (.ofString text) others) : words = others := by
  obtain ⟨tape, htape, -, rfl⟩ := delivers_ofString_iff.mp h
  obtain ⟨twin, htwin, -, rfl⟩ := delivers_ofString_iff.mp hother
  cases htape.symm.trans htwin
  rfl

end Tape

end Offside
