import Mathlib.Data.List.Chain
import Offside.Proofs.Grammar.Layout
import Offside.Proofs.Scanning.Batch

/-!
# The order of tokens

In which order a scanner delivers tokens, whatever the text.  `Regular words depth` is the
invariant of what was delivered so far: a relation between neighbours (`Token.Adjoins`) and
a balance of the marks that open blocks and those that close them.  It grows by one token at
a time (`Regular.push`).

`Scanner.Fits scanner words` says that the scanner is one that may go on behind these words:
it knows their depth and whether they end a line.  The step lemmas say what loading a batch
does to it, one for each of the three outcomes.

`Orderly` is what follows for the stream as a whole.
-/

namespace Offside

/-! ## Neighbours -/

/-- The token opens a block or closes one. -/
def Token.IsMargin (token : Token) : Prop :=
  token = .indent ∨ token = .dedent

/-- The second token may stand directly behind the first one. -/
structure Token.Adjoins (first second : Token) : Prop where
  /-- Nothing stands behind the end of the source. -/
  last : first ≠ .eof
  /-- No line is empty. -/
  line : second = .newline → first ≠ .newline
  /-- The depth changes between two lines, and in one direction. -/
  margin : second.IsMargin → first = .newline ∨ first = second
  /-- The source ends behind a line, all blocks closed. -/
  ending : second = .eof → first = .newline ∨ first = .dedent

/-- What is true of the tokens that were delivered so far, at the given depth. -/
structure Regular (words : List Token) (depth : Nat) : Prop where
  /-- All neighbours may be neighbours. -/
  adjoins : words.IsChain Token.Adjoins
  /-- No line is empty. -/
  first : words.head? ≠ some .newline
  /-- A block is opened before it is closed. -/
  covered : ∀ before, before <+: words → before.count .dedent ≤ before.count .indent
  /-- The depth is the number of blocks that are open. -/
  balance : words.count .indent = words.count .dedent + depth
  /-- At the end of the source no block is open. -/
  closed : .eof ∈ words → depth = 0

namespace Regular

variable {words : List Token} {depth next : Nat} {token : Token}

theorem nil : Regular [] 0 where
  adjoins := .nil
  first := nofun
  covered before h := by simp [List.prefix_nil.mp h]
  balance := rfl
  closed := nofun

/-- One more token. -/
theorem push (h : Regular words depth) (heof : .eof ∉ words)
    (hadjoins : ∀ last ∈ words.getLast?, last.Adjoins token)
    (hfirst : words = [] → token ≠ .newline)
    (hdepth : depth + [token].count .indent = next + [token].count .dedent)
    (hclosed : token = .eof → next = 0) : Regular (words ++ [token]) next := by
  have hcount : (words ++ [token]).count .indent = (words ++ [token]).count .dedent + next := by
    rw [List.count_append, List.count_append, h.balance]
    omega
  exact {
    adjoins := by
      refine List.isChain_append.mpr ⟨h.adjoins, .singleton token, ?_⟩
      intro last hlast second hsecond
      cases hsecond
      exact hadjoins last hlast
    first := by
      cases words with
      | nil => simpa using hfirst rfl
      | cons first rest => exact h.first
    covered := by
      intro before hbefore
      rcases List.prefix_concat_iff.mp hbefore with heq | hbefore
      · rw [heq]
        omega
      · exact h.covered before hbefore
    balance := hcount
    closed := by
      intro hmem
      rcases List.mem_append.mp hmem with hmem | hmem
      · exact absurd hmem heof
      · exact hclosed (List.mem_singleton.mp hmem).symm }

/-- A mark of margin may be repeated. -/
theorem push_replicate {mark : Token} (hmark : mark.IsMargin) (count : Nat)
    (h : Regular words depth) (heof : .eof ∉ words)
    (hlast : ∀ last ∈ words.getLast?, last = .newline ∨ last = mark)
    (hdepth : depth + (List.replicate count mark).count .indent =
      next + (List.replicate count mark).count .dedent) :
    Regular (words ++ List.replicate count mark) next := by
  induction count generalizing words depth with
  | zero =>
      have hsame : depth = next := by simpa using hdepth
      rw [List.replicate_zero, List.append_nil, ← hsame]
      exact h
  | succ count ih =>
      have hne : mark ≠ .eof ∧ mark ≠ .newline := by
        rcases hmark with rfl | rfl <;> decide
      have hadjoins : ∀ last ∈ words.getLast?, last.Adjoins mark := fun last hmem => {
        last := fun heq => heof (heq ▸ List.mem_of_getLast? hmem)
        line := fun heq => absurd heq hne.2
        margin := fun _ => hlast last hmem
        ending := fun heq => absurd heq hne.1 }
      -- one mark first, which changes the depth by one
      have hone : ∃ between, depth + [mark].count .indent = between + [mark].count .dedent ∧
          between + (List.replicate count mark).count .indent =
            next + (List.replicate count mark).count .dedent := by
        rcases hmark with rfl | rfl
        · refine ⟨depth + 1, by simp, ?_⟩
          simp [List.count_replicate] at hdepth ⊢
          omega
        · refine ⟨depth - 1, ?_, ?_⟩ <;>
            · simp [List.count_replicate] at hdepth ⊢
              omega
      obtain ⟨between, hbetween, hrest⟩ := hone
      have hpushed := h.push heof hadjoins (fun _ => hne.2) hbetween (fun heq => absurd heq hne.1)
      rw [List.replicate_succ, List.append_cons]
      refine ih hpushed ?_ ?_ hrest
      · simp [heof, Ne.symm hne.1]
      · intro last hmem
        rw [List.getLast?_concat, Option.mem_some_iff] at hmem
        exact .inr hmem.symm

/-- The marks that lead a line follow the end of the line before. -/
theorem push_marks (h : Regular words depth) (heof : .eof ∉ words)
    (hlast : ∀ last ∈ words.getLast?, last = .newline) (level : Nat) :
    Regular (words ++ Scanner.marks depth level) level := by
  by_cases hlt : depth < level
  · have hmarks : Scanner.marks depth level = List.replicate (level - depth) .indent := by
      have hnone : depth - level = 0 := by omega
      simp [Scanner.marks, hnone]
    rw [hmarks]
    refine h.push_replicate (.inl rfl) _ heof (fun last hmem => .inl (hlast last hmem)) ?_
    simp [List.count_replicate]
    omega
  · have hmarks : Scanner.marks depth level = List.replicate (depth - level) .dedent := by
      have hnone : level - depth = 0 := by omega
      simp [Scanner.marks, hnone]
    rw [hmarks]
    refine h.push_replicate (.inr rfl) _ heof (fun last hmem => .inl (hlast last hmem)) ?_
    simp [List.count_replicate]
    omega

/-- The marks that close all blocks, and the end of the source. -/
theorem push_closing (h : Regular words depth) (heof : .eof ∉ words)
    (hlast : ∀ last ∈ words.getLast?, last = .newline) :
    Regular (words ++ (List.replicate depth .dedent ++ [.eof])) 0 := by
  have hmarks : Scanner.marks depth 0 = List.replicate depth .dedent := by
    simp [Scanner.marks]
  have hclosed := h.push_marks heof hlast 0
  rw [hmarks] at hclosed
  rw [← List.append_assoc]
  refine hclosed.push ?_ ?_ (fun _ => by decide) rfl (fun _ => rfl)
  · simp [heof]
  · intro last hmem
    rw [List.getLast?_append] at hmem
    have hlast' : last = .newline ∨ last = .dedent := by
      cases depth with
      | zero => exact .inl (hlast last (by simpa using hmem))
      | succ depth => exact .inr (by simpa [List.getLast?_replicate, eq_comm] using hmem)
    exact {
      last := by rcases hlast' with rfl | rfl <;> decide
      line := fun heq => absurd heq (by decide)
      margin := fun hmargin => absurd hmargin (by simp [Token.IsMargin])
      ending := fun _ => hlast' }

end Regular

/-! ## Batches -/

namespace Scanner

/-- The scanner may go on behind these words. -/
structure Fits (scanner : Scanner) (words : List Token) : Prop where
  /-- The words are in order, and the scanner knows their depth. -/
  regular : Regular words scanner.depth
  /-- The source has not ended. -/
  opened : .eof ∉ words
  /-- The scanner knows whether a line has begun. -/
  lineStart : scanner.lineStart = true ↔ ∀ last ∈ words.getLast?, last = .newline

variable {scanner next : Scanner} {words : List Token}

theorem Fits.ofString (text : String) : Fits (.ofString text) [] where
  regular := .nil
  opened := nofun
  lineStart := by simp [Scanner.ofString, Scanner.ofChars]

/-- Behind one more token, which a line goes on with or ends with. -/
theorem Fits.push {token : Token} (h : Fits scanner words)
    (hmargin : ¬ token.IsMargin) (heof : token ≠ .eof)
    (hline : token = .newline → scanner.lineStart = false)
    (hdepth : next.depth = scanner.depth)
    (hstart : next.lineStart = true ↔ token = .newline) : Fits next (words ++ [token]) where
  regular := by
    rw [Token.IsMargin, not_or] at hmargin
    refine h.regular.push h.opened ?_ ?_ ?_ (fun heq => absurd heq heof)
    · intro last hmem
      exact {
        last := fun heq => h.opened (heq ▸ List.mem_of_getLast? hmem)
        line := by
          intro heq hlast
          have hfalse := hline heq
          rw [← Bool.not_eq_true, h.lineStart] at hfalse
          refine hfalse fun other hother => ?_
          rw [Option.mem_unique hother hmem, hlast]
        margin := fun hmark => absurd hmark (not_or.mpr hmargin)
        ending := fun heq => absurd heq heof }
    · intro hnil heq
      have hfalse := hline heq
      rw [← Bool.not_eq_true, h.lineStart, hnil] at hfalse
      exact hfalse nofun
    · simp [hdepth, hmargin.1, hmargin.2]
  opened := by simp [h.opened, Ne.symm heof]
  lineStart := by simp [hstart]

/-- A batch leaves a scanner that may go on behind it. -/
theorem Fits.batch {first : Located} {more : List Located} (h : Fits scanner words)
    (hload : scanner.load = .batch first more next) :
    Fits next (words ++ first.token :: more.map Located.token) := by
  have hloads := loads_load scanner
  rw [hload] at hloads
  cases hloads with
  | shift hrest hstart hlevel =>
      rw [List.map_replicate, ← marks_eq_cons hlevel]
      exact {
        regular := h.regular.push_marks h.opened (h.lineStart.mp hstart) _
        opened := by simp [marks, h.opened]
        lineStart := by
          rw [marks_eq_cons hlevel, ← List.replicate_succ, List.getLast?_append,
            List.getLast?_replicate]
          split <;> simp }
  | newline hrest hstart =>
      exact h.push (by simp [Token.IsMargin]) (by simp) (fun _ => hstart) rfl (by simp)
  | @lexeme _ _ _ token _ hrest hlevel hread =>
      have hlayout := Lexeme.isLayout_of_read hread
      have hne (mark : Layout) : token ≠ .layout mark := by
        intro heq
        rw [heq] at hlayout
        cases hlayout
      exact h.push (not_or.mpr ⟨hne .indent, hne .dedent⟩) (hne .eof)
        (fun heq => absurd heq (hne .newline)) rfl (by simp [hne .newline])

/-- A fault leaves a scanner that may go on where it stood. -/
theorem Fits.fault {fault : SourceFault} (h : Fits scanner words)
    (hload : scanner.load = .fault fault next) : Fits next words := by
  have hloads := loads_load scanner
  rw [hload] at hloads
  cases hloads with
  | overlong hrest hlevel hread => exact ⟨h.regular, h.opened, h.lineStart⟩
  | stray hrest hlevel hfeed hread => exact ⟨h.regular, h.opened, h.lineStart⟩

/-- The last batch leaves the order of a stream that has ended. -/
theorem Fits.last {closing : List Located} {line : Nat} (h : Fits scanner words)
    (hload : scanner.load = .last closing line) :
    Regular (words ++ (closing.map Located.token ++ [.eof])) 0 := by
  have hclosing := closing_of_load hload
  cases hstart : scanner.lineStart with
  | true =>
      have hwords : closing.map Located.token = List.replicate scanner.depth .dedent := by
        simp [hclosing, hstart]
      rw [hwords]
      exact h.regular.push_closing h.opened (h.lineStart.mp hstart)
  | false =>
      -- the line that has begun is ended first
      have hwords : closing.map Located.token =
          .newline :: List.replicate scanner.depth .dedent := by
        simp [hclosing, hstart]
      have hended : Fits { scanner with lineStart := true } (words ++ [.newline]) :=
        h.push (by simp [Token.IsMargin]) (by decide) (fun _ => hstart) rfl (by simp)
      have hclosed := hended.regular.push_closing hended.opened (hended.lineStart.mp rfl)
      rw [hwords, List.cons_append, List.append_cons]
      exact hclosed

end Scanner

/-! ## Streams -/

/-- The order of a stream, whatever of it was delivered so far. -/
structure Orderly (words : List Token) (depth : Nat) : Prop where
  /-- The source ends once at most. -/
  eof_once : words.count .eof ≤ 1
  /-- Nothing comes behind its end. -/
  eof_last : .eof ∈ words → words.getLast? = some .eof
  /-- No block is closed before it is opened. -/
  covered : ∀ before, before <+: words → before.count .dedent ≤ before.count .indent
  /-- The depth is the number of open blocks. -/
  balance : words.count .indent = words.count .dedent + depth
  /-- At the end of the source all blocks are closed. -/
  closed : .eof ∈ words → words.count .indent = words.count .dedent
  /-- No line is empty. -/
  lines : ¬ [.newline, .newline] <:+: words
  /-- The first line is not empty either. -/
  first : words.head? ≠ some .newline
  /-- A run of marks that change the depth, with none directly before it, changes it in one
  direction and stands at the start of a line. -/
  margins : ∀ before run after, words = before ++ (run ++ after) → run ≠ [] →
    (∀ token ∈ run, token.IsMargin) → (∀ token ∈ before.getLast?, ¬ token.IsMargin) →
    (∃ mark, ∀ token ∈ run, token = mark) ∧ (before = [] ∨ before.getLast? = some .newline)
  /-- The source ends behind a line and the marks that close its block. -/
  ending : .eof ∈ words → words = [.eof] ∨
    ∃ before count, words = before ++ .newline :: (List.replicate count .dedent ++ [.eof])

namespace Regular

variable {words : List Token} {depth : Nat}

/-- Nothing stands behind the end of the source. -/
theorem eq_nil_of_eof {before after : List Token}
    (h : (before ++ .eof :: after).IsChain Token.Adjoins) : after = [] := by
  cases after with
  | nil => rfl
  | cons second after =>
      have hchain := (List.isChain_append.mp h).2.1
      exact absurd rfl (List.isChain_cons_cons.mp hchain).1.last

/-- The end of the source is the last token, and no other one. -/
theorem eq_concat_of_mem (h : Regular words depth) (hmem : .eof ∈ words) :
    ∃ before, words = before ++ [.eof] ∧ .eof ∉ before := by
  obtain ⟨before, after, hwords⟩ := List.append_of_mem hmem
  have hchain := h.adjoins
  rw [hwords] at hchain
  have hafter := eq_nil_of_eof hchain
  subst hafter
  refine ⟨before, hwords, fun hbefore => ?_⟩
  obtain ⟨earlier, later, rfl⟩ := List.append_of_mem hbefore
  rw [List.append_assoc, List.cons_append] at hchain
  exact absurd (eq_nil_of_eof hchain) (by simp)

/-- The marks of one change of margin are all the same. -/
theorem eq_of_run {first : Token} {rest : List Token}
    (h : (first :: rest).IsChain Token.Adjoins) (hrun : ∀ token ∈ first :: rest, token.IsMargin) :
    ∀ token ∈ first :: rest, token = first := by
  induction rest generalizing first with
  | nil => simp
  | cons second rest ih =>
      obtain ⟨hadjoins, hchain⟩ := List.isChain_cons_cons.mp h
      have hfirst := hrun first List.mem_cons_self
      have hsecond := hrun second (by simp)
      have heq : first = second := by
        refine (hadjoins.margin hsecond).resolve_left fun heq => ?_
        rcases hfirst with hfirst | hfirst <;>
          · rw [heq] at hfirst
            cases hfirst
      subst heq
      intro token hmem
      rcases List.mem_cons.mp hmem with heq | hmem
      · exact heq
      · exact ih hchain (fun token hmem => hrun token (List.mem_cons_of_mem _ hmem)) token hmem

/-- Marks that close blocks go back to the end of a line. -/
theorem exists_line {token : Token} (h : (words ++ [token]).IsChain Token.Adjoins)
    (htoken : token = .eof ∨ token = .dedent) :
    (∃ count, words = List.replicate count .dedent) ∨
      ∃ before count, words = before ++ .newline :: List.replicate count .dedent := by
  induction words using List.reverseRecOn generalizing token with
  | nil => exact .inl ⟨0, rfl⟩
  | append_singleton words last ih =>
      obtain ⟨hwords, -, hadjoins⟩ := List.isChain_append.mp h
      have hlast := hadjoins last List.getLast?_concat token rfl
      have hcases : last = .newline ∨ last = .dedent := by
        rcases htoken with rfl | rfl
        · exact hlast.ending rfl
        · exact hlast.margin (.inr rfl)
      rcases hcases with rfl | rfl
      · exact .inr ⟨words, 0, rfl⟩
      · rcases ih hwords (.inr rfl) with ⟨count, rfl⟩ | ⟨before, count, rfl⟩
        · exact .inl ⟨count + 1, List.replicate_succ'.symm⟩
        · exact .inr ⟨before, count + 1, by simp [List.replicate_succ']⟩

/-- The stream ends behind a line and marks that close blocks, or it is empty. -/
theorem eq_of_eof_mem (h : Regular words depth) (hmem : .eof ∈ words) :
    words = [.eof] ∨
      ∃ before count, words = before ++ .newline :: (List.replicate count .dedent ++ [.eof]) := by
  obtain ⟨lines, rfl, -⟩ := h.eq_concat_of_mem hmem
  rcases exists_line h.adjoins (.inl rfl) with ⟨count, rfl⟩ | ⟨before, count, rfl⟩
  · -- nothing is open at the start of the stream, so nothing is closed there
    have hcovered := h.covered (List.replicate count .dedent) (List.prefix_append _ _)
    simp only [List.count_replicate_self, List.count_replicate] at hcovered
    have hcount : count = 0 := by simpa using hcovered
    subst hcount
    exact .inl rfl
  · exact .inr ⟨before, count, by simp⟩

/-- The order of tokens is seen from their neighbours and their balance. -/
theorem orderly (h : Regular words depth) : Orderly words depth where
  eof_once := by
    by_cases hmem : .eof ∈ words
    · obtain ⟨before, rfl, hbefore⟩ := h.eq_concat_of_mem hmem
      simp [List.count_append, List.count_eq_zero.mpr hbefore]
    · simp [List.count_eq_zero.mpr hmem]
  eof_last := by
    intro hmem
    obtain ⟨before, rfl, -⟩ := h.eq_concat_of_mem hmem
    exact List.getLast?_concat
  covered := h.covered
  balance := h.balance
  closed := by
    intro hmem
    have hbalance := h.balance
    rwa [h.closed hmem] at hbalance
  lines := by
    intro hinfix
    obtain ⟨before, after, hwords⟩ := hinfix
    have hchain := h.adjoins
    rw [← hwords] at hchain
    have hpair := (List.isChain_append.mp (List.isChain_append.mp hchain).1).2.1
    exact (List.isChain_cons_cons.mp hpair).1.line rfl rfl
  first := h.first
  margins := by
    intro before run after hwords hrun hmargin hbefore
    obtain ⟨first, rest, rfl⟩ := List.exists_cons_of_ne_nil hrun
    have hchain := h.adjoins
    rw [hwords] at hchain
    obtain ⟨-, hrest, hseam⟩ := List.isChain_append.mp hchain
    refine ⟨⟨first, eq_of_run (List.isChain_append.mp hrest).1 hmargin⟩, ?_⟩
    cases hlast : before.getLast? with
    | none => exact .inl (List.getLast?_eq_none_iff.mp hlast)
    | some last =>
        refine .inr (congrArg some ?_)
        have hadjoins := hseam last hlast first rfl
        refine (hadjoins.margin (hmargin first List.mem_cons_self)).resolve_right fun heq => ?_
        exact hbefore last hlast (heq ▸ hmargin first List.mem_cons_self)
  ending := h.eq_of_eof_mem

end Regular

end Offside
