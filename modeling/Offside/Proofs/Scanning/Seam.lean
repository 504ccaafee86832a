import Offside.Proofs.Scanning.Renumbering

/-!
# Texts behind a seam

A text is cut where no string literal is open, and something is put behind the cut that no
lexeme runs on into.  Up to the cut the scanner does not notice: it loads the batches of the
first part alone, with the second part behind what they leave (`Scanner.load_append`).  At the
cut it stands in a gap, and that gap goes on in the second part (`Scanner.exists_gap_append`).

Both are about one scanner that has the first part only, and `Scanner.append` puts a second
part behind it.  Two texts with the first part in common are compared through it.
-/

namespace Offside

/-! ## Places outside of string literals -/

namespace Region

/-- Inside a string literal. -/
def inLiteral : Region → Bool
  | code | comment => false
  | literal _ | escape _ => true

variable {quote first : Char} {content text rest : List Char}

/-- A literal that is not closed is still open at the end. -/
theorem inLiteral_of_unclosed (h : Lexeme.read first rest = .unclosed) :
    (after code (first :: rest)).inLiteral = true := by
  obtain ⟨hquote, hliteral⟩ := Lexeme.read_eq_unclosed_iff.mp h
  obtain ⟨hescape, -⟩ := Lexeme.ne_of_isQuote hquote
  obtain ⟨body, content, hbody, hrest⟩ :=
    StringLiteral.exists_body_of_readFrom_eq_none hliteral
  have hopen : (step code first).after body = literal first := by
    rw [step_code_of_isQuote hquote, after_of_body hescape hbody]
  rcases hrest with heq | heq
  · rw [heq, after_cons, hopen]
    rfl
  · rw [heq, after_cons, after_append, hopen]
    simp [step, Ne.symm hescape, inLiteral]

end Region

/-! ## Lexemes before a seam -/

namespace Lexeme

/-- A text that begins with nothing that could carry a lexeme on. -/
def Separates (text : List Char) : Prop :=
  ∀ character ∈ text.head?, character ∈ ['\n', ' ', '\r', '#']

/-- The same front, with more text behind it. -/
def Front.append (more : List Char) : Front → Front
  | .token found breaks rest => .token found breaks (rest ++ more)
  | .overlong rest => .overlong (rest ++ more)
  | .unclosed => .unclosed
  | .stray => .stray

variable {first : Char} {rest more : List Char}

/-- A run of characters does not go past the seam. -/
theorem span_append_of_head {keep : Char → Bool}
    (hmore : ∀ character ∈ more.head?, keep character = false) (rest : List Char) :
    (rest ++ more).takeWhile keep = rest.takeWhile keep ∧
      (rest ++ more).dropWhile keep = rest.dropWhile keep ++ more := by
  induction rest with
  | nil =>
      have hempty := @span_append more keep [] nofun hmore
      simpa using hempty
  | cons character rest ih =>
      cases hkeep : keep character with
      | true => simpa [hkeep] using ih
      | false => simp [hkeep]

theorem not_of_separates (hmore : Separates more) :
    ∀ character ∈ more.head?,
      character.isDigit = false ∧ isWordPart character = false ∧ character ≠ '=' := by
  intro character hcharacter
  have hmem := hmore character hcharacter
  simp only [List.mem_cons, List.not_mem_nil, or_false] at hmem
  rcases hmem with rfl | rfl | rfl | rfl <;> decide

/-- The front of a text does not change when more text comes behind a seam. -/
theorem read_append_of_separates (hmore : Separates more) (hclosed : read first rest ≠ .unclosed) :
    read first (rest ++ more) = (read first rest).append more := by
  have hnot := not_of_separates hmore
  by_cases hdigit : first.isDigit = true
  · obtain ⟨htake, hdrop⟩ :=
      span_append_of_head (fun character hcharacter => (hnot character hcharacter).1) rest
    simp only [read, hdigit, if_true, htake, hdrop]
    split <;> rfl
  by_cases hquote : isQuote first = true
  · -- the literal is closed before the seam
    obtain ⟨hescape, -⟩ := ne_of_isQuote hquote
    cases hliteral : StringLiteral.read first rest with
    | none => exact absurd (read_eq_unclosed_iff.mpr ⟨hquote, hliteral⟩) hclosed
    | some literal =>
        obtain ⟨body, hrest, hbody, hbreaks⟩ := (StringLiteral.read_eq_some_iff hescape).mp hliteral
        have hlonger : StringLiteral.read first (rest ++ more) =
            some { literal with rest := literal.rest ++ more } :=
          (StringLiteral.read_eq_some_iff hescape).mpr ⟨body, by simp [hrest], hbody, hbreaks⟩
        simp [read, hdigit, hquote, hlonger, hliteral, Front.append]
  cases hlead : Operator.ofLead? first with
  | some operator =>
      simp only [read, hdigit, hquote, hlead, Bool.false_eq_true, if_false]
      cases rest with
      | nil =>
          cases more with
          | nil => rfl
          | cons head tail =>
              have hhead := (hnot head rfl).2.2
              simp [Front.append, hhead]
      | cons second rest =>
          by_cases hequals : second = '='
          · simp [Front.append, hequals]
          · simp [Front.append, hequals]
  | none =>
      obtain ⟨htake, hdrop⟩ :=
        span_append_of_head (fun character hcharacter => (hnot character hcharacter).2.1) rest
      simp only [read, hdigit, hquote, hlead, Bool.false_eq_true, if_false, htake, hdrop]
      split
      · rfl
      · split <;> rfl

end Lexeme

/-! ## Gaps before a seam -/

namespace Gap

variable {lineStart inComment : Bool} {blanks line : Nat} {text more : List Char}

/-- A gap that the first part ends in goes on in the second part. -/
theorem exists_skip_append
    (h : (skip lineStart inComment blanks line text).rest = []) :
    ∃ inComment' blanks', ∀ more, skip lineStart inComment blanks line (text ++ more) =
      skip lineStart inComment' blanks' (line + text.count '\n') more := by
  fun_induction skip lineStart inComment blanks line text with
  | case1 inComment blanks line => exact ⟨inComment, blanks, fun more => rfl⟩
  | case2 inComment blanks line rest hstart ih =>
      obtain ⟨inComment', blanks', hskip⟩ := ih h
      refine ⟨inComment', blanks', fun more => ?_⟩
      rw [List.cons_append, skip]
      simp only [hstart, if_true, List.count_cons_self]
      rw [← hstart, hskip more, Nat.add_assoc, Nat.add_comm 1]
  | case3 => cases h
  | case4 blanks line character rest hfeed ih =>
      obtain ⟨inComment', blanks', hskip⟩ := ih h
      refine ⟨inComment', blanks', fun more => ?_⟩
      rw [List.cons_append, skip]
      simp [hfeed, hskip more]
  | case5 inComment blanks line rest hcomment hfeed ih =>
      obtain ⟨inComment', blanks', hskip⟩ := ih h
      refine ⟨inComment', blanks', fun more => ?_⟩
      rw [List.cons_append, skip]
      simp [hcomment, hskip more]
  | case6 inComment blanks line rest hcomment hfeed hblank ih =>
      obtain ⟨inComment', blanks', hskip⟩ := ih h
      refine ⟨inComment', blanks', fun more => ?_⟩
      rw [List.cons_append, skip]
      simp [hcomment, hskip more]
  | case7 inComment blanks line rest hcomment hfeed hblank hreturn ih =>
      obtain ⟨inComment', blanks', hskip⟩ := ih h
      refine ⟨inComment', blanks', fun more => ?_⟩
      rw [List.cons_append, skip]
      simp [hcomment, hskip more]
  | case8 => cases h

end Gap

/-! ## Batches before a seam -/

/-- The same load, with more text behind the scanner that it leaves. -/
def Load.append (more : List Char) : Load → Load
  | .batch first following next => .batch first following { next with rest := next.rest ++ more }
  | .last closing line => .last closing line
  | .fault cause next => .fault cause { next with rest := next.rest ++ more }

namespace Scanner

variable {scanner next : Scanner} {more : List Char} {first : Char} {rest : List Char}

/-- The scanner with more text behind what it has. -/
def append (scanner : Scanner) (more : List Char) : Scanner :=
  { scanner with rest := scanner.rest ++ more }

/-- What the scanner has ends outside of string literals. -/
def EndsOutside (scanner : Scanner) : Prop :=
  (Region.after .code scanner.rest).inLiteral = false

/-- The line behind what the scanner has. -/
def lastLine (scanner : Scanner) : Nat :=
  scanner.line + scanner.rest.count '\n'

theorem EndsOutside.behind_gap (h : scanner.EndsOutside) (hgap : scanner.gap.rest = first :: rest) :
    (Region.after .code (first :: rest)).inLiteral = false := by
  have hregion := Region.after_rest_skip hgap
  rw [if_neg Bool.false_ne_true] at hregion
  rw [← hregion]
  exact h

theorem EndsOutside.closed (h : scanner.EndsOutside) (hgap : scanner.gap.rest = first :: rest) :
    Lexeme.read first rest ≠ .unclosed := by
  intro hread
  have hinside := Region.inLiteral_of_unclosed hread
  rw [h.behind_gap hgap] at hinside
  cases hinside

/-- Before the seam the scanner does not notice what stands behind it. -/
theorem load_append (hseam : Lexeme.Separates more) (h : scanner.EndsOutside)
    (hgap : scanner.gap.rest = first :: rest) :
    (scanner.append more).load = scanner.load.append more := by
  have hlonger : (scanner.append more).gap =
      ⟨scanner.gap.blanks, scanner.gap.line, first :: (rest ++ more)⟩ :=
    Gap.skip_append_of_cons hgap
  have hread := Lexeme.read_append_of_separates hseam (h.closed hgap)
  rw [load_of_cons (congrArg Gap.rest hlonger), load_of_cons hgap, hlonger]
  simp only [append, loadLexeme, hread]
  split
  · rfl
  · split
    · rfl
    · cases hfront : Lexeme.read first rest with
      | token token breaks after => rfl
      | unclosed => exact absurd hfront (h.closed hgap)
      | overlong after => rfl
      | stray => rfl

/-- At the seam the scanner stands in a gap, which goes on behind the seam. -/
theorem exists_gap_append (hgap : scanner.gap.rest = []) :
    ∃ inComment blanks, ∀ more, (scanner.append more).gap =
      Gap.skip scanner.lineStart inComment blanks scanner.lastLine more :=
  Gap.exists_skip_append hgap

/-- A batch before the seam stands on lines before the last one, and behind it the last line is
the same. -/
theorem EndsOutside.batch {head : Located} {following : List Located} (h : scanner.EndsOutside)
    (hload : scanner.load = .batch head following next) :
    next.EndsOutside ∧ next.lastLine = scanner.lastLine ∧
      ∀ token ∈ head :: following, token.line ≤ scanner.lastLine := by
  have hline := Gap.line_skip scanner.lineStart false 0 scanner.line scanner.rest
  change scanner.gap.line + scanner.gap.rest.count '\n' = scanner.lastLine at hline
  have hloads := loads_load scanner
  rw [hload] at hloads
  cases hloads with
  | shift hgap hbegins hlevel =>
      refine ⟨h.behind_gap hgap, by rw [← hline, hgap]; rfl, ?_⟩
      intro token hmem
      have htoken : token.line = scanner.gap.line := by
        rcases List.mem_cons.mp hmem with rfl | hmem
        · rfl
        · rw [List.eq_of_mem_replicate hmem]
      omega
  | newline hgap hbegun =>
      have hrest := h.behind_gap hgap
      refine ⟨hrest, ?_, ?_⟩
      · rw [← hline, hgap, lastLine]
        simp [Nat.add_assoc, Nat.add_comm 1]
      · intro token hmem
        rw [List.mem_singleton.mp hmem]
        exact Nat.le.intro hline
  | @lexeme head rest after token breaks hgap hlevel hread =>
      obtain ⟨more, hrest, hspells, hbreaks, -⟩ := Lexeme.read_eq_token_iff.mp hread
      have houtside := h.behind_gap hgap
      rw [hrest, ← List.cons_append, Region.after_append, Region.after_of_spells hspells]
        at houtside
      refine ⟨houtside, ?_, ?_⟩
      · rw [← hline, hgap, hrest, hbreaks, lastLine, ← List.cons_append, List.count_append]
        exact Nat.add_assoc _ _ _
      · intro token hmem
        rw [List.mem_singleton.mp hmem]
        exact Nat.le.intro hline

/-- So does a fault. -/
theorem line_of_fault {fault : SourceFault} (hload : scanner.load = .fault fault next) :
    fault.line ≤ scanner.lastLine := by
  have hline := Gap.line_skip scanner.lineStart false 0 scanner.line scanner.rest
  change scanner.gap.line + scanner.gap.rest.count '\n' = scanner.lastLine at hline
  have hloads := loads_load scanner
  rw [hload] at hloads
  cases hloads with
  | overlong hgap hlevel hread => exact Nat.le.intro hline
  | stray hgap hlevel hfeed hread => exact Nat.le.intro hline

/-- Nothing ends before the seam. -/
theorem EndsOutside.load_ne_last {closing : List Located} {line : Nat} (h : scanner.EndsOutside)
    (hgap : scanner.gap.rest = first :: rest) : scanner.load ≠ .last closing line := by
  intro hload
  have hloads := loads_load scanner
  rw [hload] at hloads
  cases hloads with
  | ends hnil => rw [hgap] at hnil; cases hnil
  | unclosed hgap' hlevel hread => exact h.closed hgap' hread

/-- Two texts with the first part in common load the same batches before the seam. -/
theorem EndsOutside.corresponds_append {f : Nat → Nat} {related : Scanner → Scanner → Prop}
    {other : List Char} (h : scanner.EndsOutside) (hgap : scanner.gap.rest = first :: rest)
    (hmore : Lexeme.Separates more) (hother : Lexeme.Separates other)
    (hf : ∀ line ≤ scanner.lastLine, f line = line)
    (hrelated : ∀ next : Scanner, next.EndsOutside → next.lastLine = scanner.lastLine →
      related (next.append more) (next.append other)) :
    Load.Corresponds f related (scanner.append more).load (scanner.append other).load := by
  rw [load_append hmore h hgap, load_append hother h hgap]
  cases hload : scanner.load with
  | batch head following next =>
      obtain ⟨hnext, hlast, hlines⟩ := h.batch hload
      have hkept : (head :: following).map (Located.renumber f) = head :: following :=
        Located.map_renumber_of_forall fun token hmem => hf _ (hlines token hmem)
      obtain ⟨hhead, hfollowing⟩ := List.cons.inj hkept
      have hbatch := @Load.Corresponds.batch f related head following _ _
        (hrelated next hnext hlast)
      rwa [hhead, hfollowing] at hbatch
  | last closing line => exact absurd hload (h.load_ne_last hgap)
  | fault fault next =>
      have hfault := @Load.Corresponds.fault f related fault (next.append more)
        (next.append other)
      rwa [SourceFault.renumber, hf _ (line_of_fault hload)] at hfault

end Scanner

end Offside
