import Offside.Proofs.Scanning.Stream

/-!
# Where string literals end, and what they say

What a literal is can be said by looking at the text behind its opening quote as a whole.  Count
backslashes and the characters behind them in pairs, from left to right: the literal is closed by
the first quote of its kind that is not the second of a pair (`Closes`), and the characters before
that quote are its payload, each pair replaced by what it stands for (`decode`).

The scanner finds that quote if there is one, and stands directly behind it.  If there is none, it
passes over the rest of the text and ends the stream, without a token for the literal
(`Scanner.load_of_quote`).  A text may be spelled in many ways between two quotes, since a
backslash may also stand before characters that need none, and all of them are read as the text
(`Spelling`).
-/

namespace Offside

namespace StringLiteral

/-- Whether a text ends in a backslash that is not paired, where pairs of a backslash and the
character behind it are taken from left to right. -/
def endsUnpaired (text : List Char) : Bool :=
  text.foldl (fun unpaired character => !unpaired && character == '\\') false

/-- The characters that a text between quotes stands for. -/
def decode : List Char → List Char
  | [] => []
  | '\\' :: 'n' :: text => '\n' :: decode text
  | '\\' :: 't' :: text => '\t' :: decode text
  | '\\' :: 'r' :: text => '\r' :: decode text
  | '\\' :: character :: text => character :: decode text
  | character :: text => character :: decode text

/-- No quote of a kind stands in a text outside of the pairs. -/
def KeepsOpen (quote : Char) (text : List Char) : Prop :=
  ∀ earlier later, text = earlier ++ quote :: later → endsUnpaired earlier = true

/-- A literal is closed behind this body: the quote there is the first of its kind behind the
opening one that no unpaired backslash stands before. -/
structure Closes (quote : Char) (source body rest : List Char) : Prop where
  source_eq : source = body ++ quote :: rest
  unpaired : endsUnpaired body = false
  isFirst : KeepsOpen quote body

/-- A spelling of a text between quotes of a kind.  A backslash stands before the quote and the
backslash, and may stand before any other character, if the two do not mean something else. -/
inductive Spelling (quote : Char) : List Char → List Char → Prop
  | nil : Spelling quote [] []
  | plain {character : Char} {text spelling : List Char} (hquote : character ≠ quote)
      (hescape : character ≠ '\\') (h : Spelling quote text spelling) :
      Spelling quote (character :: text) (character :: spelling)
  | escaped {character : Char} {text spelling : List Char} (hself : character ∉ ['n', 't', 'r'])
      (h : Spelling quote text spelling) :
      Spelling quote (character :: text) ('\\' :: character :: spelling)

variable {quote : Char} {body content source rest text spelling : List Char} {literal : Literal}

/-! ## Pairs -/

@[simp] theorem endsUnpaired_pair (character : Char) (text : List Char) :
    endsUnpaired ('\\' :: character :: text) = endsUnpaired text :=
  rfl

theorem endsUnpaired_cons {character : Char} (h : character ≠ '\\') (text : List Char) :
    endsUnpaired (character :: text) = endsUnpaired text := by
  simp only [endsUnpaired, List.foldl_cons, beq_eq_false_iff_ne.mpr h, Bool.and_false]

@[simp] theorem decode_pair (character : Char) (text : List Char) :
    decode ('\\' :: character :: text) = unescape character :: decode text := by
  unfold unescape
  split
  · rfl
  · rfl
  · rfl
  · next hfeed htab hreturn => rw [decode.eq_5 _ _ hfeed htab hreturn]

theorem decode_cons {character : Char} (h : character ≠ '\\') (text : List Char) :
    decode (character :: text) = character :: decode text := by
  rw [decode]
  all_goals
    intros
    exact absurd ‹character = '\\'› h

/-! ## Bodies -/

theorem keepsOpen_nil : KeepsOpen quote [] := by
  intro earlier later heq
  simp at heq

theorem KeepsOpen.cons {character : Char} (hquote : character ≠ quote)
    (hescape : character ≠ '\\') (h : KeepsOpen quote text) :
    KeepsOpen quote (character :: text) := by
  intro earlier later heq
  cases earlier with
  | nil => exact absurd (List.cons.inj heq).1 hquote
  | cons first earlier =>
      rw [List.cons_append] at heq
      obtain ⟨hfirst, heq⟩ := List.cons.inj heq
      rw [← hfirst, endsUnpaired_cons hescape]
      exact h earlier later heq

/-- The second character of a pair may be a quote. -/
theorem KeepsOpen.pair (hquote : quote ≠ '\\') (character : Char) (h : KeepsOpen quote text) :
    KeepsOpen quote ('\\' :: character :: text) := by
  intro earlier later heq
  rcases earlier with _ | ⟨first, _ | ⟨second, earlier⟩⟩
  · exact absurd (List.cons.inj heq).1.symm hquote
  · rw [← (List.cons.inj heq).1]
    rfl
  · rw [List.cons_append, List.cons_append] at heq
    obtain ⟨hfirst, heq⟩ := List.cons.inj heq
    rw [← hfirst, endsUnpaired_pair]
    exact h earlier later (List.cons.inj heq).2

/-- A backslash at the end closes nothing. -/
theorem KeepsOpen.concat (hquote : quote ≠ '\\') (h : KeepsOpen quote text) :
    KeepsOpen quote (text ++ ['\\']) := by
  intro earlier later heq
  cases later using List.reverseRecOn with
  | nil => exact absurd (List.append_inj_right' heq rfl) (by simpa using hquote.symm)
  | append_singleton later last =>
      rw [← List.cons_append, ← List.append_assoc] at heq
      exact h earlier later (List.append_inj_left' heq rfl)

/-- What stands between two quotes is decoded, and its backslashes and quotes are paired. -/
theorem Body.decodes (hquote : quote ≠ '\\') (h : Body quote body content) :
    content = decode body ∧ endsUnpaired body = false ∧ KeepsOpen quote body := by
  induction h with
  | nil => exact ⟨rfl, rfl, keepsOpen_nil⟩
  | plain hplain hescape _ ih =>
      obtain ⟨hcontent, hends, hopen⟩ := ih
      rw [decode_cons hescape, endsUnpaired_cons hescape, hcontent]
      exact ⟨rfl, hends, hopen.cons hplain hescape⟩
  | escaped character _ ih =>
      obtain ⟨hcontent, hends, hopen⟩ := ih
      rw [decode_pair, endsUnpaired_pair, hcontent]
      exact ⟨rfl, hends, hopen.pair hquote character⟩

/-- A literal that is read is closed behind the body that it stands for. -/
theorem closes_of_read (hquote : quote ≠ '\\') (h : read quote source = some literal) :
    ∃ body, Closes quote source body literal.rest ∧ literal.text = decode body ∧
      literal.breaks = body.count '\n' := by
  obtain ⟨body, hsource, hbody, hbreaks⟩ := (read_eq_some_iff hquote).mp h
  obtain ⟨hcontent, hends, hopen⟩ := hbody.decodes hquote
  exact ⟨body, ⟨hsource, hends, hopen⟩, hcontent, hbreaks⟩

/-- A literal that is not read is not closed. -/
theorem keepsOpen_of_read (hquote : quote ≠ '\\') (h : read quote source = none) :
    KeepsOpen quote source := by
  obtain ⟨body, content, hbody, hsource⟩ := exists_body_of_readFrom_eq_none h
  obtain ⟨-, -, hopen⟩ := hbody.decodes hquote
  rcases hsource with rfl | rfl
  · exact hopen
  · exact hopen.concat hquote

/-- A spelling is the body of what it spells. -/
theorem Spelling.isBody (h : Spelling quote text spelling) : Body quote spelling text := by
  induction h with
  | nil => exact .nil
  | plain hquote hescape _ ih => exact .plain hquote hescape ih
  | @escaped character text spelling hself _ ih =>
      have hbody := Body.escaped character ih
      simp only [List.mem_cons, List.not_mem_nil, or_false, not_or] at hself
      rwa [unescape.eq_4 character hself.1 hself.2.1 hself.2.2] at hbody

end StringLiteral

/-! ## Scanning a literal -/

namespace Scanner

open StringLiteral

variable {scanner : Scanner} {quote : Char} {source : List Char}

/-- Behind an opening quote, which stands at the margin of the line before it if it begins a line,
the scanner either reads the text up to the quote that closes the literal, delivers what it stands
for, and stands directly behind that quote, or there is no such quote, and the stream ends.  Every
spelling of a text is read as the text. -/
theorem load_of_quote (hquote : quote = '\'' ∨ quote = '"')
    (hrest : scanner.gap.rest = quote :: source)
    (hlevel : scanner.lineStart = true → scanner.gap.blanks / indentWidth = scanner.depth) :
    ((∃ body rest, Closes quote source body rest ∧
        scanner.load = .batch ⟨.string (String.ofList (decode body)), scanner.gap.line⟩ []
          ⟨rest, scanner.gap.line + body.count '\n', scanner.depth, false⟩) ∨
      KeepsOpen quote source ∧ (∃ closing line, scanner.load = .last closing line) ∧
        Delivers scanner (ending scanner.depth scanner.lineStart)) ∧
    ∀ text spelling rest, Spelling quote (String.toList text) spelling →
      source = spelling ++ quote :: rest →
      scanner.load = .batch ⟨.string text, scanner.gap.line⟩ []
        ⟨rest, scanner.gap.line + spelling.count '\n', scanner.depth, false⟩ := by
  have hisQuote : Lexeme.isQuote quote = true := by
    rcases hquote with rfl | rfl <;> rfl
  obtain ⟨hescape, -, hdigit⟩ := Lexeme.ne_of_isQuote hisQuote
  have hload {literal : Literal} (hread : StringLiteral.read quote source = some literal) :
      scanner.load = .batch ⟨.string (String.ofList literal.text), scanner.gap.line⟩ []
        ⟨literal.rest, scanner.gap.line + literal.breaks, scanner.depth, false⟩ := by
    refine (Loads.lexeme hrest hlevel ?_).eq
    simp only [Lexeme.read, hdigit, Bool.false_eq_true, if_false, hisQuote, if_true, hread]
  constructor
  · cases hread : StringLiteral.read quote source with
    | some literal =>
        obtain ⟨body, hcloses, htext, hbreaks⟩ := closes_of_read hescape hread
        rw [hload hread, htext, hbreaks]
        exact .inl ⟨body, literal.rest, hcloses, rfl⟩
    | none =>
        have hlast := (Loads.unclosed hrest hlevel
          (Lexeme.read_eq_unclosed_iff.mpr ⟨hisQuote, hread⟩)).eq
        exact .inr ⟨keepsOpen_of_read hescape hread, ⟨_, _, hlast⟩, .of_finish hlast⟩
  · intro text spelling rest hspelling hsource
    have hread : StringLiteral.read quote source =
        some ⟨text.toList, spelling.count '\n', rest⟩ :=
      (read_eq_some_iff hescape).mpr ⟨spelling, hsource, hspelling.isBody, rfl⟩
    rw [hload hread, String.ofList_toList]

/-- A backslash may also stand before a letter that does not need it.  Behind the literal the line
goes on. -/
theorem load_of_quote_sample :
    load ⟨"'\\it\\'s' + x".toList, 1, 0, true⟩ =
      .batch ⟨.string "it's", 1⟩ [] ⟨" + x".toList, 1, 0, false⟩ := by
  have hspelling : Spelling '\'' "it's".toList "\\it\\'s".toList :=
    .escaped (by decide) (.plain (by decide) (by decide) (.escaped (by decide)
      (.plain (by decide) (by decide) .nil)))
  have hgap : gap ⟨"'\\it\\'s' + x".toList, 1, 0, true⟩ =
      ⟨0, 1, '\'' :: "\\it\\'s' + x".toList⟩ := by
    rfl
  exact (load_of_quote (.inl rfl) (congrArg Gap.rest hgap) fun _ => rfl).2 "it's" _ " + x".toList
    hspelling rfl

end Scanner

end Offside
