import Offside.Proofs.Scanning.Batch

/-!
# Where a character stands

A character stands in the code of a text, in a comment, or in a string literal.  `Region`
says which, character by character and without a word about tokens, so that a property of a
text such as "it ends behind a line feed that is not inside a string literal" can be stated
of its characters (`EndsLine`).

The scanner agrees: between two batches it is in the code (`after_of_spells`,
`after_rest_skip`), and a string literal that is not closed leaves the rest of the text in a
literal (`after_ne_code_of_unclosed`).
-/

namespace Offside

open Lexeme (isQuote)

/-- Where the next character stands. -/
inductive Region
  | code
  | comment
  /-- Inside a string literal with such quotes. -/
  | literal (quote : Char)
  /-- Inside a string literal, behind a backslash. -/
  | escape (quote : Char)
deriving DecidableEq, Repr

namespace Region

/-- Where the next character stands, behind one more character. -/
def step : Region → Char → Region
  | code, character =>
    if character = '#' then comment
    else if isQuote character then literal character
    else code
  | comment, character => if character = '\n' then code else comment
  | literal quote, character =>
    if character = quote then code
    else if character = '\\' then escape quote
    else literal quote
  | escape quote, _ => literal quote

/-- Where the next character stands, behind a text. -/
def after (region : Region) (text : List Char) : Region :=
  text.foldl step region

/-- The text ends with a line feed that is not inside a string literal. -/
def EndsLine (text : List Char) : Prop :=
  text.getLast? = some '\n' ∧ after code text = code

instance (text : List Char) : Decidable (EndsLine text) :=
  inferInstanceAs (Decidable (_ ∧ _))

variable {quote first : Char} {body content text rest more : List Char} {token : Token}

@[simp] theorem after_nil (region : Region) : region.after [] = region := rfl

@[simp] theorem after_cons (region : Region) (character : Char) (text : List Char) :
    region.after (character :: text) = (region.step character).after text := rfl

theorem after_append (region : Region) (text more : List Char) :
    region.after (text ++ more) = (region.after text).after more :=
  List.foldl_append

/-! ## Lexemes -/

/-- The body of a string literal stays inside the literal. -/
theorem after_of_body (hquote : quote ≠ '\\') (h : StringLiteral.Body quote body content) :
    (literal quote).after body = literal quote := by
  induction h with
  | nil => rfl
  | plain hplain hescape h ih => simpa [step, hplain, hescape] using ih
  | escaped character h ih => simpa [step, Ne.symm hquote] using ih

/-- A character that is neither a quote nor begins a comment stays in the code. -/
theorem step_code (hcomment : first ≠ '#') (hquote : isQuote first = false) :
    step code first = code := by
  simp [step, hcomment, hquote]

theorem step_code_of_isQuote (h : isQuote quote = true) : step code quote = literal quote := by
  have hcomment : quote ≠ '#' := by
    intro heq
    rw [heq] at h
    cases h
  simp [step, hcomment, h]

theorem after_code_of_forall
    (h : ∀ character ∈ text, character ≠ '#' ∧ isQuote character = false) :
    after code text = code := by
  induction text with
  | nil => rfl
  | cons character text ih =>
      obtain ⟨hcomment, hquote⟩ := h character List.mem_cons_self
      rw [after_cons, step_code hcomment hquote]
      exact ih fun other hother => h other (List.mem_cons_of_mem _ hother)

theorem plain_of_isWordPart {character : Char} (h : Lexeme.isWordPart character = true) :
    character ≠ '#' ∧ isQuote character = false := by
  constructor
  · intro heq
    rw [heq] at h
    cases h
  · by_contra hquote
    rw [Bool.not_eq_false] at hquote
    rcases Lexeme.eq_quote_of_isQuote hquote with heq | heq <;>
      · rw [heq] at h
        cases h

/-- A spelling leads back to the code. -/
theorem after_of_spells (h : token.Spells text) : after code text = code := by
  cases h with
  | number hsome hdigits hlength =>
      exact after_code_of_forall fun digit hdigit =>
        plain_of_isWordPart (Lexeme.isWordPart_of_isDigit (hdigits digit hdigit))
  | word hfirst hrest =>
      refine after_code_of_forall fun character hmem => plain_of_isWordPart ?_
      rcases List.mem_cons.mp hmem with heq | hmem
      · rw [heq]
        exact Lexeme.isWordPart_of_isWordStart hfirst
      · exact hrest character hmem
  | operator operator => cases operator <;> rfl
  | @symbol character hsymbol =>
      have hmem := Lexeme.not_mem_of_spells (.symbol hsymbol)
      have hquote : isQuote character = false := by
        rcases hsymbol with hsolo | hlead
        · exact (Lexeme.not_of_mem_soloSymbols hsolo).2.1
        · obtain ⟨operator, hlead⟩ := Option.isSome_iff_exists.mp hlead
          rw [Operator.ofLead?_eq_some hlead]
          exact (Lexeme.not_of_lead operator).2
      exact step_code (fun heq => hmem (by simp [heq])) hquote
  | string hquote hbody =>
      obtain ⟨hescape, -⟩ := Lexeme.ne_of_isQuote hquote
      rw [after_cons, step_code_of_isQuote hquote, after_append, after_of_body hescape hbody]
      simp [step]

/-- A literal that is not closed is never left. -/
theorem after_ne_code_of_unclosed (h : Lexeme.read first rest = .unclosed) :
    after code (first :: rest) ≠ code := by
  obtain ⟨hquote, hliteral⟩ := Lexeme.read_eq_unclosed_iff.mp h
  obtain ⟨hescape, -⟩ := Lexeme.ne_of_isQuote hquote
  obtain ⟨body, content, hbody, hrest⟩ :=
    StringLiteral.exists_body_of_readFrom_eq_none hliteral
  rw [after_cons, step_code_of_isQuote hquote]
  rcases hrest with hrest | hrest
  · rw [hrest, after_of_body hescape hbody]
    nofun
  · rw [hrest, after_append, after_of_body hescape hbody]
    simp [step, Ne.symm hescape]

/-! ## Gaps -/

/-- Passing over a gap leads back to the code, if something is left. -/
theorem after_rest_skip {lineStart inComment : Bool} {blanks line : Nat}
    (h : (Gap.skip lineStart inComment blanks line text).rest = first :: rest) :
    (if inComment then comment else code).after text = after code (first :: rest) := by
  fun_induction Gap.skip lineStart inComment blanks line text with
  | case1 => cases h
  | case2 inComment blanks line after hstart ih =>
      rw [← ih h]
      cases inComment <;> rfl
  | case3 inComment blanks line after hstart =>
      cases h
      cases inComment <;> rfl
  | case4 blanks line character after hfeed ih =>
      rw [← ih h]
      simp [step, hfeed]
  | case5 inComment blanks line after hcomment hfeed ih =>
      rw [← ih h]
      simp [hcomment, step, isQuote]
  | case6 inComment blanks line after hcomment hfeed hblank ih =>
      rw [← ih h]
      simp [hcomment, step, isQuote]
  | case7 inComment blanks line after hcomment hfeed hblank hreturn ih =>
      rw [← ih h]
      simp [hcomment, step]
  | case8 inComment blanks line character after hfeed hcomment =>
      cases h
      simp [hcomment]

end Region

end Offside
