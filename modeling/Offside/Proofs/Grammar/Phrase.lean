import Offside.Grammar.Expression

/-!
# Derivations of expressions

The grammar of expressions, with the tree that every derivation stands for.  A
`Phrase` is a nonterminal of the grammar together with what it means: an operand of a
level, the rest of an operand whose left end has a meaning already, arguments, or the
calls behind a call.  `Derives classes phrase tokens` says that the tokens derive from
the phrase where names mean these classes.

The levels run from `Level.test` to `Level.primary`.  Four of them join operands from
the left, and `Level.joins` says by which tokens; the others add one production each to
the level below (`Level.next`).

The origin of a literal is no part of its tokens, so a derivation leaves it open.

What a reader decides by looking at one token is said by two predicates.
`Level.Begins` holds of the tokens with which an operand may begin (`Derives.begins`),
`Level.Stops` of those that cannot carry an operand on.
-/

namespace Offside.Expression

/-! ## Levels -/

/-- The levels of an expression, from the loosest to the tightest. -/
inductive Level
  | test
  | conjunct
  | negated
  | comparison
  | sum
  | product
  | signed
  | primary
deriving DecidableEq, Repr

namespace Level

/-- The number of looser levels. -/
def rank : Level → Nat
  | test => 0
  | conjunct => 1
  | negated => 2
  | comparison => 3
  | sum => 4
  | product => 5
  | signed => 6
  | primary => 7

/-- The level of the operands of a level. -/
def next : Level → Level
  | test => conjunct
  | conjunct => negated
  | negated => comparison
  | comparison => sum
  | sum => product
  | product => signed
  | signed | primary => primary

/-- The tokens that join operands of a level from the left, with what they make. -/
def joins : Level → Token → Option (Node → Node → Node)
  | test => disjunctionOperator
  | conjunct => conjunctionOperator
  | sum => sumOperator
  | product => productOperator
  | negated | comparison | signed | primary => fun _ => none

theorem rank_next {level : Level} (h : level ≠ primary) :
    level.next.rank = level.rank + 1 := by
  cases level <;> first | rfl | exact absurd rfl h

end Level

/-- The level at which a token carries on an expression before it. -/
def carriesOn? : Token → Option Level
  | .keyword .orWord => some .test
  | .keyword .andWord => some .conjunct
  | .operator _ | .symbol '<' | .symbol '>' => some .comparison
  | .symbol '+' | .symbol '-' => some .sum
  | .symbol '*' | .symbol '/' => some .product
  | .symbol '(' | .symbol '.' => some .primary
  | _ => none

/-- The tokens that do not carry on an operand of a level. -/
def Level.Stops (level : Level) (token : Token) : Prop :=
  ∀ carried, carriesOn? token = some carried → carried.rank < level.rank

/-- The tokens that an operand of a level may begin with. -/
def Level.Begins (level : Level) : Token → Prop
  | .number _ | .string _ | .identifier _ | .symbol '(' => True
  | .keyword .trueWord | .keyword .falseWord | .keyword .noneWord => True
  | .symbol '-' => level.rank ≤ Level.signed.rank
  | .keyword .notWord => level.rank ≤ Level.negated.rank
  | _ => False

/-! ## What operators join -/

/-- The six operators that join operands from the left. -/
theorem joins_cases {level : Level} {token : Token} {join : Node → Node → Node}
    (h : level.joins token = some join) :
    (level = .test ∧ token = .keyword .orWord ∧ join = .connective .or) ∨
    (level = .conjunct ∧ token = .keyword .andWord ∧ join = .connective .and) ∨
    (level = .sum ∧ token = .symbol '+' ∧ join = .arithmetic .add) ∨
    (level = .sum ∧ token = .symbol '-' ∧ join = .arithmetic .subtract) ∨
    (level = .product ∧ token = .symbol '*' ∧ join = .arithmetic .multiply) ∨
    (level = .product ∧ token = .symbol '/' ∧ join = .arithmetic .divide) := by
  cases level with
  | test =>
      simp only [Level.joins, disjunctionOperator] at h
      split at h <;> cases h
      simp
  | conjunct =>
      simp only [Level.joins, conjunctionOperator] at h
      split at h <;> cases h
      simp
  | sum =>
      simp only [Level.joins, sumOperator] at h
      split at h <;> cases h <;> simp
  | product =>
      simp only [Level.joins, productOperator] at h
      split at h <;> cases h <;> simp
  | negated => cases h
  | comparison => cases h
  | signed => cases h
  | primary => cases h

theorem carriesOn?_of_joins {level : Level} {token : Token} {join : Node → Node → Node}
    (h : level.joins token = some join) : carriesOn? token = some level := by
  rcases joins_cases h with ⟨rfl, rfl, -⟩ | ⟨rfl, rfl, -⟩ | ⟨rfl, rfl, -⟩ | ⟨rfl, rfl, -⟩ |
    ⟨rfl, rfl, -⟩ | ⟨rfl, rfl, -⟩ <;> rfl

theorem carriesOn?_of_relation {token : Token} {found : Relation}
    (h : relation token = some found) : carriesOn? token = some .comparison := by
  unfold relation at h
  split at h <;> first | rfl | cases h

/-! ## Tokens that stop an operand -/

namespace Level

variable {level : Level} {token : Token}

theorem Stops.of_rank_le {tighter : Level} (h : level.Stops token)
    (hrank : level.rank ≤ tighter.rank) : tighter.Stops token :=
  fun carried hcarried => Nat.lt_of_lt_of_le (h carried hcarried) hrank

theorem Stops.next (h : level.Stops token) : level.next.Stops token :=
  h.of_rank_le (by cases level <;> decide)

theorem Stops.joins_eq_none (h : level.Stops token) : level.joins token = none := by
  cases hjoins : level.joins token with
  | none => rfl
  | some join => exact absurd (h level (carriesOn?_of_joins hjoins)) (Nat.lt_irrefl _)

theorem Stops.relation_eq_none (h : level.Stops token) (hrank : level.rank ≤ comparison.rank) :
    relation token = none := by
  cases hrelation : relation token with
  | none => rfl
  | some found =>
      have := h comparison (carriesOn?_of_relation hrelation)
      omega

theorem Stops.ne_symbol {character : Char} (h : level.Stops token)
    (hcharacter : carriesOn? (.symbol character) = some primary) :
    token ≠ .symbol character := by
  rintro rfl
  have := h primary hcharacter
  cases level <;> exact absurd this (by decide)

/-- An operator of a level ends an operand of the next. -/
theorem stops_next_of_joins {join : Node → Node → Node} (h : level.joins token = some join) :
    level.next.Stops token := by
  intro carried hcarried
  obtain rfl : level = carried :=
    Option.some.inj ((carriesOn?_of_joins h).symm.trans hcarried)
  have hprimary : level ≠ primary := by
    rintro rfl
    cases h
  rw [rank_next hprimary]
  exact Nat.lt_succ_self _

/-- A comparison ends the sum before it. -/
theorem stops_sum_of_relation {found : Relation} (h : relation token = some found) :
    sum.Stops token := by
  intro carried hcarried
  obtain rfl : comparison = carried :=
    Option.some.inj ((carriesOn?_of_relation h).symm.trans hcarried)
  decide

theorem stops_of_carriesOn?_eq_none (h : carriesOn? token = none) : level.Stops token := by
  intro carried hcarried
  rw [h] at hcarried
  cases hcarried

theorem Begins.of_next (h : level.next.Begins token) : level.Begins token := by
  unfold Begins at h ⊢
  split at h <;> simp_all [rank, next] <;> cases level <;> simp_all

end Level

/-! ## Derivations -/

/-- A nonterminal of the grammar with its meaning. -/
inductive Phrase
  /-- An operand of a level. -/
  | operand (level : Level) (node : Node)
  /-- What may follow the first operand of a level. -/
  | tail (level : Level) (left whole : Node)
  /-- Arguments with commas between them, if there are any. -/
  | arguments (nodes : List Node)
  /-- Further arguments, each after a comma. -/
  | moreArguments (nodes : List Node)
  /-- Method calls, each after a point. -/
  | calls (receiver whole : Node)

/-- The tokens of a dotted name. -/
def dottedTokens (name : String) (fields : List String) : List Token :=
  .identifier name :: fields.flatMap fun field => [.symbol '.', .identifier field]

theorem dottedTokens_append (name field : String) (fields : List String) :
    dottedTokens name (fields ++ [field]) =
      dottedTokens name fields ++ [.symbol '.', .identifier field] := by
  simp [dottedTokens]

/-- The literal that a token is. -/
def literal? (origin : Origin) : Token → Option Node
  | .number value => some (.number origin value)
  | .string content => some (.text origin content)
  | .keyword .trueWord => some (.flag origin true)
  | .keyword .falseWord => some (.flag origin false)
  | .keyword .noneWord => some .absent
  | _ => none

/-- What a dotted name followed by arguments means where names mean these classes. -/
def applied? (classes : Bindings ClassId) (name : String) (fields : List String)
    (values : List Node) : Option Node :=
  match fields.getLast? with
  | some method => some (.call (.variable name fields.dropLast) method values)
  | none =>
    if name = strName then
      match values with
      | [operand] => some (.stringify operand)
      | _ => none
    else (classes.get? name).map fun cls => .create cls values

/-- The tokens that derive from a phrase. -/
inductive Derives (classes : Bindings ClassId) : Phrase → List Token → Prop
  | chain {level : Level} {first whole : Node} {tokens more : List Token}
      (hlevel : level ≠ .primary) (hfirst : Derives classes (.operand level.next first) tokens)
      (hmore : Derives classes (.tail level first whole) more) :
      Derives classes (.operand level whole) (tokens ++ more)
  | tailEnd (level : Level) (left : Node) : Derives classes (.tail level left left) []
  | tailMore {level : Level} {operator : Token} {join : Node → Node → Node}
      {left right whole : Node} {tokens more : List Token}
      (hjoin : level.joins operator = some join)
      (hright : Derives classes (.operand level.next right) tokens)
      (hmore : Derives classes (.tail level (join left right) whole) more) :
      Derives classes (.tail level left whole) (operator :: tokens ++ more)
  | negation {operand : Node} {tokens : List Token}
      (h : Derives classes (.operand .negated operand) tokens) :
      Derives classes (.operand .negated (.negation operand)) (.keyword .notWord :: tokens)
  | comparison {operator : Token} {found : Relation} {left right : Node}
      {tokens more : List Token} (hleft : Derives classes (.operand .sum left) tokens)
      (hfound : relation operator = some found)
      (hright : Derives classes (.operand .sum right) more) :
      Derives classes (.operand .comparison (.comparison found left right))
        (tokens ++ operator :: more)
  | sign (origin : Origin) {operand : Node} {tokens : List Token}
      (h : Derives classes (.operand .signed operand) tokens) :
      Derives classes (.operand .signed (.arithmetic .subtract (.number origin 0) operand))
        (.symbol '-' :: tokens)
  | literal {origin : Origin} {token : Token} {node : Node}
      (h : literal? origin token = some node) : Derives classes (.operand .primary node) [token]
  | parenthesized {node : Node} {tokens : List Token}
      (h : Derives classes (.operand .test node) tokens) :
      Derives classes (.operand .primary node) (.symbol '(' :: tokens ++ [.symbol ')'])
  | dotted (name : String) (fields : List String) :
      Derives classes (.operand .primary (.variable name fields)) (dottedTokens name fields)
  | application {name : String} {fields : List String} {values : List Node} {call whole : Node}
      {tokens more : List Token} (hvalues : Derives classes (.arguments values) tokens)
      (hcall : applied? classes name fields values = some call)
      (hmore : Derives classes (.calls call whole) more) :
      Derives classes (.operand .primary whole)
        (dottedTokens name fields ++ .symbol '(' :: tokens ++ .symbol ')' :: more)
  | argumentsEnd : Derives classes (.arguments []) []
  | argumentsMore {first : Node} {others : List Node} {tokens more : List Token}
      (hfirst : Derives classes (.operand .test first) tokens)
      (hothers : Derives classes (.moreArguments others) more) :
      Derives classes (.arguments (first :: others)) (tokens ++ more)
  | moreArgumentsEnd : Derives classes (.moreArguments []) []
  | moreArgumentsMore {first : Node} {others : List Node} {tokens more : List Token}
      (hfirst : Derives classes (.operand .test first) tokens)
      (hothers : Derives classes (.moreArguments others) more) :
      Derives classes (.moreArguments (first :: others)) (.symbol ',' :: tokens ++ more)
  | callsEnd (receiver : Node) : Derives classes (.calls receiver receiver) []
  | callsMore {receiver whole : Node} {method : String} {values : List Node}
      {tokens more : List Token} (hvalues : Derives classes (.arguments values) tokens)
      (hmore : Derives classes (.calls (.call receiver method values) whole) more) :
      Derives classes (.calls receiver whole)
        (.symbol '.' :: .identifier method :: .symbol '(' :: tokens ++ .symbol ')' :: more)

private theorem begins_of_literal? {origin : Origin} {token : Token} {node : Node}
    (h : literal? origin token = some node) : Level.primary.Begins token := by
  unfold literal? at h
  split at h <;> trivial

/-- What a phrase says about the first of its tokens. -/
private def Phrase.Opens : Phrase → List Token → Prop
  | operand level _, tokens => ∃ token rest, tokens = token :: rest ∧ level.Begins token
  | _, _ => True

private theorem Derives.opens {classes : Bindings ClassId} {phrase : Phrase}
    {tokens : List Token} (h : Derives classes phrase tokens) : phrase.Opens tokens := by
  induction h with
  | chain hlevel hfirst hmore ihfirst ihmore =>
      obtain ⟨token, rest, rfl, hbegins⟩ := ihfirst
      exact ⟨token, _, rfl, hbegins.of_next⟩
  | negation h ih => exact ⟨_, _, rfl, Nat.le_refl _⟩
  | comparison hleft hfound hright ihleft ihright =>
      obtain ⟨token, rest, rfl, hbegins⟩ := ihleft
      exact ⟨token, _, rfl, Level.Begins.of_next hbegins⟩
  | sign origin h ih => exact ⟨_, _, rfl, Nat.le_refl _⟩
  | literal h => exact ⟨_, _, rfl, begins_of_literal? h⟩
  | parenthesized h ih => exact ⟨_, _, rfl, trivial⟩
  | dotted name fields => exact ⟨_, _, rfl, trivial⟩
  | application hvalues hcall hmore => exact ⟨_, _, rfl, trivial⟩
  | tailEnd => trivial
  | tailMore => trivial
  | argumentsEnd => trivial
  | argumentsMore => trivial
  | moreArgumentsEnd => trivial
  | moreArgumentsMore => trivial
  | callsEnd => trivial
  | callsMore => trivial

/-- The tokens of an operand begin with a token that may begin one. -/
theorem Derives.begins {classes : Bindings ClassId} {level : Level} {node : Node}
    {tokens : List Token} (h : Derives classes (.operand level node) tokens) :
    ∃ token rest, tokens = token :: rest ∧ level.Begins token :=
  h.opens

/-- An operand of the next level is one of this level. -/
theorem Derives.of_next {classes : Bindings ClassId} (level : Level) {node : Node}
    {tokens : List Token} (h : Derives classes (.operand level.next node) tokens)
    (hlevel : level ≠ .primary) : Derives classes (.operand level node) tokens := by
  have hchain := Derives.chain hlevel h (.tailEnd level node)
  rwa [List.append_nil] at hchain

/-- A derivation that joins one operand more joins it from the right. -/
theorem Derives.tailSnoc {classes : Bindings ClassId} {level : Level} {operator : Token}
    {join : Node → Node → Node} {left whole right : Node} {tokens more : List Token}
    (h : Derives classes (.tail level left whole) tokens)
    (hjoin : level.joins operator = some join)
    (hright : Derives classes (.operand level.next right) more) :
    Derives classes (.tail level left (join whole right)) (tokens ++ operator :: more) := by
  generalize hphrase : Phrase.tail level left whole = phrase at h
  induction h generalizing left with
  | tailEnd =>
      cases hphrase
      have := Derives.tailMore hjoin hright (Derives.tailEnd level (join whole right))
      simpa only [List.append_nil, List.nil_append] using this
  | tailMore hjoin' hright' hmore ihright ihmore =>
      cases hphrase
      have := Derives.tailMore hjoin' hright' (ihmore rfl)
      simpa only [List.cons_append, List.append_assoc] using this
  | _ => cases hphrase

/-! ## From the leftmost operand on -/

/-- The tokens that carry a primary operand on to an operand of a level. -/
inductive CarriesOn (classes : Bindings ClassId) : Level → Node → Node → List Token → Prop
  | primary (node : Node) : CarriesOn classes .primary node node []
  | chain {level : Level} {first middle whole : Node} {tokens more : List Token}
      (hlevel : level ≠ .primary) (hfirst : CarriesOn classes level.next first middle tokens)
      (hmore : Derives classes (.tail level middle whole) more) :
      CarriesOn classes level first whole (tokens ++ more)
  | comparison {operator : Token} {found : Relation} {first left right : Node}
      {tokens more : List Token} (hleft : CarriesOn classes .sum first left tokens)
      (hfound : relation operator = some found)
      (hright : Derives classes (.operand .sum right) more) :
      CarriesOn classes .comparison first (.comparison found left right)
        (tokens ++ operator :: more)

/-- What carries on to an operand of the next level carries on to one of this level. -/
theorem CarriesOn.of_next {classes : Bindings ClassId} (level : Level) {first whole : Node}
    {tokens : List Token} (h : CarriesOn classes level.next first whole tokens)
    (hlevel : level ≠ .primary) : CarriesOn classes level first whole tokens := by
  have hchain := CarriesOn.chain hlevel h (.tailEnd level whole)
  rwa [List.append_nil] at hchain

theorem CarriesOn.derives {classes : Bindings ClassId} {level : Level} {first whole : Node}
    {tokens more : List Token} (h : CarriesOn classes level first whole more)
    (hfirst : Derives classes (.operand .primary first) tokens) :
    Derives classes (.operand level whole) (tokens ++ more) := by
  induction h with
  | primary => rwa [List.append_nil]
  | chain hlevel _ hmore ih =>
      rw [← List.append_assoc]
      exact .chain hlevel (ih hfirst) hmore
  | comparison _ hfound hright ih =>
      rw [← List.append_assoc]
      exact .comparison (ih hfirst) hfound hright

/-- The first token of what carries an operand on is an operator. -/
theorem CarriesOn.carriesOn? {classes : Bindings ClassId} {level : Level} {first whole : Node}
    {token : Token} {tokens : List Token}
    (h : CarriesOn classes level first whole (token :: tokens)) :
    Expression.carriesOn? token ≠ none := by
  generalize hall : token :: tokens = all at h
  induction h generalizing tokens with
  | primary => cases hall
  | @chain level first middle whole before more hlevel hfirst hmore ih =>
      -- the first token is that of the tighter level, unless that adds nothing
      cases before with
      | cons found before =>
          obtain ⟨rfl, rfl⟩ := List.cons.inj hall
          exact ih rfl
      | nil =>
          cases hmore with
          | tailEnd => cases hall
          | tailMore hjoin =>
              obtain ⟨rfl, -⟩ := List.cons.inj hall
              rw [carriesOn?_of_joins hjoin]
              exact Option.some_ne_none _
  | @comparison operator found first left right before more hleft hfound hright ih =>
      cases before with
      | cons found before =>
          obtain ⟨rfl, rfl⟩ := List.cons.inj hall
          exact ih rfl
      | nil =>
          obtain ⟨rfl, -⟩ := List.cons.inj hall
          rw [carriesOn?_of_relation hfound]
          exact Option.some_ne_none _

/-- An operand that begins with a name is carried on from the operand that the name
begins. -/
theorem Derives.leftmost {classes : Bindings ClassId} {level : Level} {node : Node}
    {name : String} {rest : List Token}
    (h : Derives classes (.operand level node) (.identifier name :: rest)) :
    ∃ first tokens more, .identifier name :: rest = tokens ++ more ∧
      Derives classes (.operand .primary first) tokens ∧
      CarriesOn classes level first node more := by
  generalize hphrase : Phrase.operand level node = phrase at h
  generalize htokens : Token.identifier name :: rest = tokens at h
  induction h generalizing level node rest with
  | chain hlevel hfirst hmore ihfirst ihmore =>
      cases hphrase
      -- the operand has a first token, so the name is its own
      obtain ⟨token, others, rfl, -⟩ := hfirst.begins
      obtain ⟨rfl, -⟩ := List.cons.inj htokens
      obtain ⟨first, prior, behind, heq, hprimary, hcarries⟩ := ihfirst rfl rfl
      exact ⟨first, prior, _, by rw [heq, List.append_assoc], hprimary,
        .chain hlevel hcarries hmore⟩
  | comparison hleft hfound hright ihleft ihright =>
      cases hphrase
      obtain ⟨token, others, rfl, -⟩ := hleft.begins
      obtain ⟨rfl, -⟩ := List.cons.inj htokens
      obtain ⟨first, prior, behind, heq, hprimary, hcarries⟩ := ihleft rfl rfl
      exact ⟨first, prior, _, by rw [heq, List.append_assoc], hprimary,
        .comparison hcarries hfound hright⟩
  | literal hliteral =>
      cases hphrase
      exact ⟨_, _, [], (List.append_nil _).symm, .literal hliteral, .primary _⟩
  | dotted found fields =>
      cases hphrase
      exact ⟨_, _, [], (List.append_nil _).symm, .dotted found fields, .primary _⟩
  | application hvalues hcall hmore =>
      cases hphrase
      exact ⟨_, _, [], (List.append_nil _).symm, .application hvalues hcall hmore, .primary _⟩
  | parenthesized => cases htokens
  | negation => cases htokens
  | sign => cases htokens
  | _ => cases hphrase

end Offside.Expression
