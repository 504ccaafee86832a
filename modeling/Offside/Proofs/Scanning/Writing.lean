import Offside.Proofs.Scanning.Lexeme

/-!
# Writing tokens

`Token.write` writes a token out, strings between quotes of a given kind.  What it writes is
a spelling of the token (`spells_write`), and it is not the only one: a number may begin with
zeros, and a string may escape more characters than it has to.

Two tokens that are written one directly after the other may run together, whatever their
spellings.  `Token.clings` says which do: `extendedBy_eq_clings`.
-/

namespace Offside

open Lexeme (isQuote isWordPart isWordStart ofWord soloSymbols)

namespace Token

variable {token : Token} {quote head : Char} {more : List Char}

/-! ## Tokens with a spelling -/

/-- The name is one that a word can spell and that is not reserved. -/
def IsName (name : String) : Prop :=
  (∃ first rest, name.toList = first :: rest ∧ isWordStart first = true ∧
    ∀ character ∈ rest, isWordPart character = true) ∧
  ∀ word : Keyword, name ≠ word.spelling

/-- The characters that are tokens by themselves. -/
def symbols : List Char :=
  ['.', ',', ':', '(', ')', '+', '-', '*', '/', '=', '!', '<', '>']

/-- A text can spell the token. -/
def HasSpelling : Token → Prop
  | number value => (Nat.toDigits 10 value).length ≤ Decimal.digitLimit
  | identifier name => IsName name
  | symbol character => character ∈ symbols
  | string _ | keyword _ | operator _ => True
  | layout _ => False

/-- Writes a token; strings are quoted, and the quote and the backslash are escaped. -/
def write (quote : Char) : Token → List Char
  | number value => Nat.toDigits 10 value
  | identifier name => name.toList
  | symbol character => [character]
  | string content =>
    quote :: (content.toList.flatMap (StringLiteral.escape quote) ++ [quote])
  | keyword word => word.spelling.toList
  | operator op => [op.lead, '=']
  | layout _ => []

@[simp] theorem ofWord_spelling (word : Keyword) : ofWord word.spelling = .keyword word := by
  cases word <;> rfl

theorem ofWord_eq_identifier {name : String} (h : ∀ word : Keyword, name ≠ word.spelling) :
    ofWord name = .identifier name := by
  have hnone : Keyword.ofSpelling? name = none := by
    simp only [Keyword.ofSpelling?, List.find?_eq_none, beq_iff_eq]
    intro word _ heq
    exact h word heq.symm
  rw [ofWord, hnone]

theorem symbol_cases {character : Char} (h : character ∈ symbols) :
    character ∈ soloSymbols ∨ (Operator.ofLead? character).isSome = true := by
  fin_cases h <;> decide

theorem mem_symbols {character : Char}
    (h : character ∈ soloSymbols ∨ (Operator.ofLead? character).isSome = true) :
    character ∈ symbols := by
  rcases h with h | h
  · fin_cases h <;> decide
  · obtain ⟨operator, hlead⟩ := Option.isSome_iff_exists.mp h
    obtain rfl := Operator.ofLead?_eq_some hlead
    cases operator <;> decide

/-- What is written is a spelling. -/
theorem spells_write (h : token.HasSpelling) (hquote : isQuote quote = true) :
    token.Spells (token.write quote) := by
  cases token with
  | number value =>
      have hdigits : ∀ digit ∈ Nat.toDigits 10 value, digit.isDigit = true :=
        fun digit hdigit => Nat.isDigit_of_mem_toDigits (by decide) (by decide) hdigit
      have hspells := Spells.number Nat.toDigits_ne_nil hdigits h
      rwa [Nat.ofDigitChars_toDigits (by decide) (by decide)] at hspells
  | identifier name =>
      obtain ⟨⟨first, rest, hname, hfirst, hrest⟩, hkeyword⟩ := h
      have hspells := Spells.word hfirst hrest
      rwa [← hname, String.ofList_toList, ofWord_eq_identifier hkeyword] at hspells
  | symbol character => exact .symbol (symbol_cases h)
  | string content =>
      have hbody := StringLiteral.body_escape (Lexeme.eq_quote_of_isQuote hquote) content.toList
      have hspells := Spells.string hquote hbody
      rwa [String.ofList_toList] at hspells
  | keyword word =>
      have hspells : (ofWord word.spelling).Spells word.spelling.toList := by
        cases word <;> exact .word rfl (List.all_eq_true.mp rfl)
      rwa [ofWord_spelling] at hspells
  | operator operator => exact .operator operator
  | layout mark => cases h

/-! ## Tokens that run together -/

/-- The token is a number. -/
def isNumber : Token → Bool
  | number _ => true
  | _ => false

/-- The token is spelled by a word. -/
def isWord : Token → Bool
  | identifier _ | keyword _ => true
  | _ => false

/-- The spellings of the token begin with an equals sign. -/
def beginsWithEquals : Token → Bool
  | symbol '=' | operator .equal => true
  | _ => false

/-- The first token runs on into the second one if nothing stands between them. -/
def clings : Token → Token → Bool
  | number _, second => second.isNumber
  | identifier _, second | keyword _, second => second.isWord || second.isNumber
  | symbol lead, second => (Operator.ofLead? lead).isSome && second.beginsWithEquals
  | operator _, _ | string _, _ | layout _, _ => false

theorem isWord_ofWord (word : String) :
    (ofWord word).isWord = true ∧ (ofWord word).isNumber = false ∧
      (ofWord word).beginsWithEquals = false := by
  unfold ofWord
  split <;> exact ⟨rfl, rfl, rfl⟩

/-- What a spelling begins with tells what kind of token it spells. -/
theorem Spells.head_kind (h : token.Spells (head :: more)) :
    head.isDigit = token.isNumber ∧ isWordStart head = token.isWord ∧
      (head == '=') = token.beginsWithEquals := by
  generalize hspelling : head :: more = spelling at h
  cases h with
  | number hsome hdigits hlength =>
      subst hspelling
      have hdigit := hdigits head List.mem_cons_self
      have hstart : isWordStart head = false := by
        by_contra hstart
        rw [Bool.not_eq_false] at hstart
        exact absurd (Lexeme.not_of_isWordStart hstart).1 (by simp [hdigit])
      have hequals : (head == '=') = false := by
        rw [beq_eq_false_iff_ne]
        intro heq
        rw [heq] at hdigit
        cases hdigit
      exact ⟨hdigit, hstart, hequals⟩
  | word hfirst hrest =>
      cases hspelling
      obtain ⟨hword, hnumber, hequals⟩ := isWord_ofWord (String.ofList (head :: more))
      rw [hword, hnumber, hequals, beq_eq_false_iff_ne]
      refine ⟨(Lexeme.not_of_isWordStart hfirst).1, hfirst, ?_⟩
      intro heq
      rw [heq] at hfirst
      cases hfirst
  | operator operator =>
      cases hspelling
      cases operator <;> decide
  | symbol hsymbol =>
      cases hspelling
      have hmem := mem_symbols hsymbol
      clear hsymbol
      fin_cases hmem <;> decide
  | string hquote hbody =>
      cases hspelling
      rcases Lexeme.eq_quote_of_isQuote hquote with heq | heq <;>
        · rw [heq]
          exact ⟨rfl, rfl, rfl⟩

/-- A token is carried on by what stands directly behind it exactly if the two tokens run
together. -/
theorem extendedBy_eq_clings {first second : Token} (h : second.Spells (head :: more)) :
    first.extendedBy head = first.clings second := by
  obtain ⟨hdigit, hword, hequals⟩ := h.head_kind
  cases first with
  | number => exact hdigit
  | identifier => simp only [extendedBy, clings, isWordPart, hdigit, hword]
  | keyword => simp only [extendedBy, clings, isWordPart, hdigit, hword]
  | symbol => simp only [extendedBy, clings, hequals]
  | operator => rfl
  | string => rfl
  | layout => rfl

end Token

end Offside
