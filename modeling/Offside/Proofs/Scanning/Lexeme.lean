import Mathlib.Data.List.TakeWhile
import Mathlib.Tactic.FinCases
import Offside.Token.Lexeme
import Offside.Proofs.Scanning.Literal

/-!
# Lexemes and their tokens

`Token.Spells token text` says which texts spell a token: a run of digits that is not too
long, a word, an operator, a symbol, or a string literal.  `Token.extendedBy` says which
characters would carry a token on, if they stood directly behind it.

Together the two describe reading completely (`read_eq_token_iff`): the lexeme at the front
of a text is a spelling of its token, and nothing behind it carries the token on.
-/

namespace Offside

open Lexeme (isQuote isWordPart isWordStart ofWord soloSymbols)
open StringLiteral (Body)

namespace Token

/-- A text spells a token. -/
inductive Spells : Token → List Char → Prop
  | number {digits : List Char} (hsome : digits ≠ [])
      (hdigits : ∀ digit ∈ digits, digit.isDigit = true)
      (hlength : digits.length ≤ Decimal.digitLimit) :
      Spells (.number (Nat.ofDigitChars 10 digits 0)) digits
  | word {first : Char} {rest : List Char} (hfirst : isWordStart first = true)
      (hrest : ∀ character ∈ rest, isWordPart character = true) :
      Spells (ofWord (String.ofList (first :: rest))) (first :: rest)
  | operator (operator : Operator) : Spells (.operator operator) [operator.lead, '=']
  | symbol {character : Char}
      (h : character ∈ soloSymbols ∨ (Operator.ofLead? character).isSome = true) :
      Spells (.symbol character) [character]
  | string {quote : Char} {body content : List Char} (hquote : isQuote quote = true)
      (h : Body quote body content) :
      Spells (.string (String.ofList content)) (quote :: (body ++ [quote]))

/-- A character that stands directly behind a token carries it on. -/
def extendedBy : Token → Char → Bool
  | number _, character => character.isDigit
  | identifier _, character | keyword _, character => isWordPart character
  | symbol lead, character => (Operator.ofLead? lead).isSome && character == '='
  | operator _, _ | string _, _ | layout _, _ => false

/-- Nothing that stands directly behind the token carries it on. -/
def EndsBefore (token : Token) (rest : List Char) : Prop :=
  ∀ character ∈ rest.head?, token.extendedBy character = false

theorem extendedBy_ofWord (word : String) : (ofWord word).extendedBy = isWordPart := by
  unfold ofWord
  split <;> rfl

theorem endsBefore_nil (token : Token) : token.EndsBefore [] := by
  intro character hcharacter
  cases hcharacter

end Token

namespace Lexeme

open Token (Spells)

variable {first : Char} {rest after : List Char} {token : Token} {breaks : Nat}

/-! ## Classes of characters -/

theorem eq_quote_of_isQuote {quote : Char} (h : isQuote quote = true) :
    quote = '\'' ∨ quote = '"' := by
  simpa [isQuote] using h

theorem ne_of_isQuote {quote : Char} (h : isQuote quote = true) :
    quote ≠ '\\' ∧ quote ≠ '\n' ∧ quote.isDigit = false := by
  rcases eq_quote_of_isQuote h with heq | heq <;>
    · rw [heq]
      decide

theorem isWordPart_of_isWordStart {character : Char} (h : isWordStart character = true) :
    isWordPart character = true := by
  simp [isWordPart, h]

theorem isWordPart_of_isDigit {character : Char} (h : character.isDigit = true) :
    isWordPart character = true := by
  simp [isWordPart, h]

theorem isDigit_eq_false_of_isAlpha {character : Char} (h : character.isAlpha = true) :
    character.isDigit = false := by
  have hbounds : '0'.val.toNat = 48 ∧ '9'.val.toNat = 57 ∧ 'A'.val.toNat = 65 ∧
      'a'.val.toNat = 97 := by decide
  unfold Char.isAlpha Char.isUpper Char.isLower at h
  simp only [Char.isDigit, Bool.or_eq_true, Bool.and_eq_true, decide_eq_true_eq,
    Bool.and_eq_false_iff, decide_eq_false_iff_not, ge_iff_le, UInt32.le_iff_toNat_le] at h ⊢
  omega

/-- What may begin a word begins nothing else. -/
theorem not_of_isWordStart {character : Char} (h : isWordStart character = true) :
    character.isDigit = false ∧ isQuote character = false ∧ Operator.ofLead? character = none ∧
      character ∉ soloSymbols := by
  have hne (other : Char) (hother : isWordStart other = false) : character ≠ other := by
    intro heq
    rw [← heq, h] at hother
    cases hother
  have hdigit : character.isDigit = false := by
    by_cases hunderscore : character = '_'
    · subst hunderscore
      rfl
    · exact isDigit_eq_false_of_isAlpha (by simpa [isWordStart, hunderscore] using h)
  have hlead : Operator.ofLead? character = none := by
    cases hlead : Operator.ofLead? character with
    | none => rfl
    | some operator =>
        have hoperator := Operator.ofLead?_eq_some hlead
        cases operator <;> exact absurd hoperator (hne _ rfl)
  refine ⟨hdigit, ?_, hlead, ?_⟩
  · simp [isQuote, hne '\'' rfl, hne '"' rfl]
  · simp [soloSymbols, hne '.' rfl, hne ',' rfl, hne ':' rfl, hne '(' rfl, hne ')' rfl,
      hne '+' rfl, hne '-' rfl, hne '*' rfl, hne '/' rfl]

/-- A symbol that stands alone begins nothing else. -/
theorem not_of_mem_soloSymbols {character : Char} (h : character ∈ soloSymbols) :
    character.isDigit = false ∧ isQuote character = false ∧
      Operator.ofLead? character = none ∧ character ≠ '\n' := by
  fin_cases h <;> decide

theorem not_of_lead (operator : Operator) :
    operator.lead.isDigit = false ∧ isQuote operator.lead = false := by
  cases operator <;> decide

/-! ## Runs of characters -/

/-- Digits stand on one line. -/
theorem lineFeed_not_mem_digits {digits : List Char}
    (hdigits : ∀ digit ∈ digits, digit.isDigit = true) : '\n' ∉ digits := by
  intro hmem
  cases hdigits _ hmem

/-- So does a word. -/
theorem lineFeed_not_mem_word {more : List Char} (hfirst : isWordStart first = true)
    (hmore : ∀ character ∈ more, isWordPart character = true) : '\n' ∉ first :: more := by
  intro hmem
  rcases List.mem_cons.mp hmem with heq | hmem
  · subst heq
    cases hfirst
  · cases hmore _ hmem

/-- A run of characters ends where a character stands that cannot go on with it. -/
theorem span_append {keep : Char → Bool} {run : List Char}
    (hrun : ∀ character ∈ run, keep character = true)
    (hafter : ∀ character ∈ after.head?, keep character = false) :
    (run ++ after).takeWhile keep = run ∧ (run ++ after).dropWhile keep = after := by
  have hstop : after.takeWhile keep = [] ∧ after.dropWhile keep = after := by
    cases after with
    | nil => exact ⟨rfl, rfl⟩
    | cons character rest =>
        have hcharacter := hafter character rfl
        simp [hcharacter]
  rw [List.takeWhile_append_of_pos hrun, List.dropWhile_append_of_pos hrun, hstop.1, hstop.2,
    List.append_nil]
  exact ⟨rfl, rfl⟩

theorem eq_false_of_head?_dropWhile {keep : Char → Bool} {character : Char}
    (h : character ∈ (rest.dropWhile keep).head?) : keep character = false := by
  have hhead := List.head?_dropWhile_not keep rest
  rw [Option.mem_def] at h
  rwa [h] at hhead

/-! ## Reading a lexeme -/

/-- A spelling is read as its token, unless it goes on. -/
theorem read_of_spells {more : List Char} (h : token.Spells (first :: more))
    (hafter : token.EndsBefore after) :
    read first (more ++ after) = .token token ((first :: more).count '\n') after := by
  generalize hspelling : first :: more = spelling at h
  cases h with
  | number hsome hdigits hlength =>
      subst hspelling
      have hfirst := hdigits first List.mem_cons_self
      have hmore := fun digit hdigit => hdigits digit (List.mem_cons_of_mem first hdigit)
      obtain ⟨htake, hdrop⟩ := span_append hmore hafter
      have hcount := List.count_eq_zero.mpr (lineFeed_not_mem_digits hdigits)
      simp only [read, hfirst, htake, hdrop, hcount, Decimal.read?, hlength, if_true]
  | word hfirst hrest =>
      cases hspelling
      obtain ⟨hdigit, hquote, hlead, hsolo⟩ := not_of_isWordStart hfirst
      rw [Token.EndsBefore, Token.extendedBy_ofWord] at hafter
      obtain ⟨htake, hdrop⟩ := span_append hrest hafter
      have hcount := List.count_eq_zero.mpr (lineFeed_not_mem_word hfirst hrest)
      simp [read, hdigit, hquote, hlead, hsolo, hfirst, htake, hdrop, hcount]
  | operator operator =>
      cases hspelling
      obtain ⟨hdigit, hquote⟩ := not_of_lead operator
      have hcount : [operator.lead, '='].count '\n' = 0 := by
        cases operator <;> decide
      simp [read, hdigit, hquote, Operator.ofLead?_lead, hcount]
  | symbol hsymbol =>
      cases hspelling
      cases hlead : Operator.ofLead? first with
      | none =>
          rw [hlead] at hsymbol
          have hsolo : first ∈ soloSymbols := hsymbol.resolve_right Bool.false_ne_true
          obtain ⟨hdigit, hquote, -, hne⟩ := not_of_mem_soloSymbols hsolo
          simp [read, hdigit, hquote, hlead, hsolo, hne]
      | some operator =>
          obtain rfl := Operator.ofLead?_eq_some hlead
          obtain ⟨hdigit, hquote⟩ := not_of_lead operator
          have hcount : [operator.lead].count '\n' = 0 := by
            cases operator <;> decide
          have hnext : ∀ character ∈ after.head?, character ≠ '=' := by
            simpa [Token.EndsBefore, Token.extendedBy, hlead] using hafter
          rw [List.nil_append, hcount, read, hdigit, hquote, hlead]
          simp only [Bool.false_eq_true, if_false]
          split
          · next heq => exact absurd rfl (hnext '=' rfl)
          · rfl
  | string hquote hbody =>
      cases hspelling
      obtain ⟨hescape, hline, hdigit⟩ := ne_of_isQuote hquote
      rename_i body content
      have hread : StringLiteral.read first (body ++ [first] ++ after) =
          some ⟨content, body.count '\n', after⟩ :=
        (StringLiteral.read_eq_some_iff hescape).mpr ⟨body, by simp, hbody, rfl⟩
      have hcount : (first :: (body ++ [first])).count '\n' = body.count '\n' := by
        simp [hline]
      rw [hcount, read, hdigit, hquote]
      simp only [Bool.false_eq_true, if_false, if_true]
      rw [hread]

/-- Digits that have a value spell it. -/
theorem spells_of_read?_eq_some {digits : List Char} {value : Nat} (hsome : digits ≠ [])
    (hdigits : ∀ digit ∈ digits, digit.isDigit = true)
    (hvalue : Decimal.read? digits = some value) : (Token.number value).Spells digits := by
  rw [Decimal.read?] at hvalue
  split at hvalue
  · next hlength =>
      cases hvalue
      exact .number hsome hdigits hlength
  · cases hvalue

/-- An equals sign is all that carries a symbol on. -/
theorem endsBefore_symbol (h : ∀ after, rest ≠ '=' :: after) :
    (Token.symbol first).EndsBefore rest := by
  intro character hcharacter
  cases rest with
  | nil => cases hcharacter
  | cons head tail =>
      cases hcharacter
      have hne : character ≠ '=' := fun heq => h tail (by rw [heq])
      simp [Token.extendedBy, hne]

/-- What is read as a token is a spelling of it, and does not go on. -/
theorem spells_of_read (h : read first rest = .token token breaks after) :
    ∃ more, rest = more ++ after ∧ token.Spells (first :: more) ∧ token.EndsBefore after := by
  unfold read at h
  split at h
  · next hdigit =>
      dsimp only at h
      split at h
      · next value hvalue =>
          cases h
          have hdigits : ∀ digit ∈ first :: rest.takeWhile Char.isDigit,
              digit.isDigit = true :=
            List.forall_mem_cons.mpr ⟨hdigit, fun digit hmem => List.mem_takeWhile_imp hmem⟩
          exact ⟨_, List.takeWhile_append_dropWhile.symm,
            spells_of_read?_eq_some (List.cons_ne_nil _ _) hdigits hvalue,
            fun character hcharacter => eq_false_of_head?_dropWhile hcharacter⟩
      · cases h
  · split at h
    · next hquote =>
        split at h
        · next literal hliteral =>
            cases h
            obtain ⟨hescape, -⟩ := ne_of_isQuote hquote
            obtain ⟨body, hrest, hbody, -⟩ := (StringLiteral.read_eq_some_iff hescape).mp hliteral
            exact ⟨body ++ [first], by simp [hrest], .string hquote hbody, fun _ _ => rfl⟩
        · cases h
    · split at h
      · next operator hlead =>
          have hlead' := Operator.ofLead?_eq_some hlead
          split at h
          · cases h
            subst hlead'
            exact ⟨['='], rfl, .operator operator, fun _ _ => rfl⟩
          · next hnext =>
              cases h
              have hsymbol : (Operator.ofLead? first).isSome = true := by
                rw [hlead]
                rfl
              exact ⟨[], rfl, .symbol (.inr hsymbol), endsBefore_symbol hnext⟩
      · next hlead =>
          split at h
          · next hsolo =>
              cases h
              refine ⟨[], rfl, .symbol (.inl (List.contains_iff_mem.mp hsolo)), ?_⟩
              intro character hcharacter
              simp [Token.extendedBy, hlead]
          · split at h
            · next hstart =>
                cases h
                refine ⟨_, List.takeWhile_append_dropWhile.symm,
                  .word hstart fun character hmem => List.mem_takeWhile_imp hmem, ?_⟩
                rw [Token.EndsBefore, Token.extendedBy_ofWord]
                exact fun character hcharacter => eq_false_of_head?_dropWhile hcharacter
            · cases h

/-- A token is read off a text exactly if a spelling of it stands in front that does not
go on. -/
theorem read_eq_token_iff :
    read first rest = .token token breaks after ↔
      ∃ more, rest = more ++ after ∧ token.Spells (first :: more) ∧
        breaks = (first :: more).count '\n' ∧ token.EndsBefore after := by
  constructor
  · intro h
    obtain ⟨more, hrest, hspells, hafter⟩ := spells_of_read h
    have hread := read_of_spells hspells hafter
    rw [← hrest, h] at hread
    cases hread
    exact ⟨more, hrest, hspells, rfl, hafter⟩
  · intro h
    obtain ⟨more, hrest, hspells, hbreaks, hafter⟩ := h
    rw [hrest, hbreaks]
    exact read_of_spells hspells hafter

/-- What is no token because a quote is missing. -/
theorem read_eq_unclosed_iff :
    read first rest = .unclosed ↔
      isQuote first = true ∧ StringLiteral.read first rest = none := by
  constructor
  · intro h
    unfold read at h
    split at h
    · dsimp only at h
      split at h <;> cases h
    · split at h
      · next hquote =>
          split at h
          · cases h
          · next hliteral => exact ⟨hquote, hliteral⟩
      · split at h
        · split at h <;> cases h
        · split at h
          · cases h
          · split at h <;> cases h
  · intro h
    obtain ⟨hquote, hliteral⟩ := h
    obtain ⟨-, -, hdigit⟩ := ne_of_isQuote hquote
    simp [read, hdigit, hquote, hliteral]

/-! ## The ends of a spelling -/

/-- What stands between lexemes begins none. -/
theorem read_eq_stray (h : first ∈ ['\n', ' ', '\r', '#']) : read first rest = .stray := by
  simp only [List.mem_cons, List.not_mem_nil, or_false] at h
  rcases h with h | h | h | h <;>
    · subst h
      rfl

theorem not_mem_of_spells {more : List Char} (h : token.Spells (first :: more)) :
    first ∉ ['\n', ' ', '\r', '#'] := by
  intro hmem
  have hread := read_of_spells h (Token.endsBefore_nil token)
  rw [read_eq_stray hmem] at hread
  cases hread

end Lexeme

namespace Token

variable {token : Token} {spelling : List Char}

theorem Spells.exists_cons (h : token.Spells spelling) :
    ∃ first more, spelling = first :: more := by
  cases h with
  | number hsome hdigits hlength => exact List.exists_cons_of_ne_nil hsome
  | word => exact ⟨_, _, rfl⟩
  | operator => exact ⟨_, _, rfl⟩
  | symbol => exact ⟨_, _, rfl⟩
  | string => exact ⟨_, _, rfl⟩

/-- A spelling does not end in a line feed. -/
theorem Spells.getLast?_ne (h : token.Spells spelling) : spelling.getLast? ≠ some '\n' := by
  intro hlast
  have hmem := List.mem_of_getLast? hlast
  cases h with
  | number hsome hdigits hlength => exact Lexeme.lineFeed_not_mem_digits hdigits hmem
  | word hfirst hrest => exact Lexeme.lineFeed_not_mem_word hfirst hrest hmem
  | operator operator => simp at hlast
  | symbol hsymbol =>
      rw [List.mem_singleton] at hmem
      subst hmem
      revert hsymbol
      decide
  | string hquote hbody =>
      obtain ⟨-, hline, -⟩ := Lexeme.ne_of_isQuote hquote
      rw [← List.cons_append, List.getLast?_append, List.getLast?_singleton] at hlast
      exact hline (Option.some.inj hlast)

end Token

end Offside
