import Offside.Proofs.Grammar.Writable

/-!
# Writing expressions

The way back from a tree to tokens.  `bare` writes an expression without parentheses
around it, and `spell` writes it as an operand of a level: in parentheses exactly if its
own level (`levelOf`) is a looser one.  An operand to the left of an operator that joins
from the left stands at the level of the operator, one to the right at the next level,
and the operands of a comparison are sums.

A sign is read as a difference from zero, so that such a difference can be written in
two ways; `signs` says for which operands it is written as a sign.  A class is written
as the first name that means it.

What is written derives from the tree it was written for (`derives_spell`).  A chain of
calls derives from its front on, but a tree holds it from the back, and `Applies` says
what carries over from one call to the next.
-/

namespace Offside.Expression

/-! ## Operators -/

/-- The token of an operator of arithmetic. -/
def arithmeticToken : Arithmetic → Token
  | .add => .symbol '+'
  | .subtract => .symbol '-'
  | .multiply => .symbol '*'
  | .divide => .symbol '/'

/-- The level at which an operator of arithmetic joins. -/
def arithmeticLevel : Arithmetic → Level
  | .add | .subtract => .sum
  | .multiply | .divide => .product

/-- The word of a connective. -/
def connectiveToken : Connective → Token
  | .or => .keyword .orWord
  | .and => .keyword .andWord

/-- The level at which a connective joins. -/
def connectiveLevel : Connective → Level
  | .or => .test
  | .and => .conjunct

/-- The token of a comparison. -/
def relationToken : Relation → Token
  | .equal => .operator .equal
  | .notEqual => .operator .notEqual
  | .less => .symbol '<'
  | .lessOrEqual => .operator .lessOrEqual
  | .greater => .symbol '>'
  | .greaterOrEqual => .operator .greaterOrEqual

@[simp] theorem joins_arithmetic (operator : Arithmetic) :
    (arithmeticLevel operator).joins (arithmeticToken operator) = some (.arithmetic operator) := by
  cases operator <;> rfl

@[simp] theorem joins_connective (word : Connective) :
    (connectiveLevel word).joins (connectiveToken word) = some (.connective word) := by
  cases word <;> rfl

@[simp] theorem relation_relationToken (found : Relation) :
    relation (relationToken found) = some found := by
  cases found <;> rfl

/-! ## Names of classes -/

/-- The first name of this kind that means a class. -/
def nameFor (accepts : String → Bool) (names : Bindings ClassId) (cls : ClassId) : String :=
  (names.names.find? fun name => accepts name && names.get? name == some cls).getD ""

theorem nameFor_spec (accepts : String → Bool) {names : Bindings ClassId} {cls : ClassId}
    {name : String} (haccepts : accepts name = true) (hname : names.get? name = some cls) :
    accepts (nameFor accepts names cls) = true ∧
      names.get? (nameFor accepts names cls) = some cls := by
  have hmem : name ∈ names.names := Bindings.mem_names.mpr (by rw [hname]; rfl)
  unfold nameFor
  cases hfind : names.names.find? fun name => accepts name && names.get? name == some cls with
  | none =>
      have hnot := List.find?_eq_none.mp hfind name hmem
      simp [haccepts, hname] at hnot
  | some found =>
      have hfound := List.find?_some hfind
      simpa using hfound

/-! ## Tokens of expressions -/

section

variable (names : Bindings ClassId) (signs : Node → Bool)

/-- Whether an operation is written as a sign. -/
def writesSign (operator : Arithmetic) (left right : Node) : Bool :=
  match operator, left with
  | .subtract, .number _ 0 => signs right
  | _, _ => false

/-- The level of an expression without parentheses around it. -/
def levelOf : Node → Level
  | .arithmetic operator left right =>
    if writesSign signs operator left right then .signed else arithmeticLevel operator
  | .connective word _ _ => connectiveLevel word
  | .negation _ => .negated
  | .comparison .. => .comparison
  | _ => .primary

/-- Puts an expression in parentheses if it is too loose for an operand of the level. -/
def enclose (level : Level) (node : Node) (tokens : List Token) : List Token :=
  if level.rank ≤ (levelOf signs node).rank then tokens
  else .symbol '(' :: tokens ++ [.symbol ')']

mutual

/-- The tokens of an expression without parentheses around it. -/
def bare : Node → List Token
  | .number _ value => [.number value.toNat]
  | .text _ content => [.string content]
  | .flag _ value => [.keyword (if value then .trueWord else .falseWord)]
  | .absent => [.keyword .noneWord]
  | .variable name fields => dottedTokens name fields
  | .arithmetic operator left right =>
    if writesSign signs operator left right then
      .symbol '-' :: enclose signs .signed right (bare right)
    else
      enclose signs (arithmeticLevel operator) left (bare left) ++
        arithmeticToken operator ::
          enclose signs (arithmeticLevel operator).next right (bare right)
  | .connective word left right =>
    enclose signs (connectiveLevel word) left (bare left) ++
      connectiveToken word :: enclose signs (connectiveLevel word).next right (bare right)
  | .negation operand => .keyword .notWord :: enclose signs .negated operand (bare operand)
  | .comparison found left right =>
    enclose signs .sum left (bare left) ++
      relationToken found :: enclose signs .sum right (bare right)
  | .stringify operand =>
    .identifier strName :: .symbol '(' :: bare operand ++ [.symbol ')']
  | .call receiver method arguments =>
    bare receiver ++ .symbol '.' :: .identifier method :: .symbol '(' ::
      (separated arguments).tail ++ [.symbol ')']
  | .create cls arguments =>
    .identifier (nameFor (· != strName) names cls) :: .symbol '(' ::
      (separated arguments).tail ++ [.symbol ')']
  | _ => []

/-- The tokens of arguments, each after a comma. -/
def separated : List Node → List Token
  | [] => []
  | first :: others => .symbol ',' :: bare first ++ separated others

end

/-- The tokens of an expression as an operand of a level. -/
def spell (level : Level) (node : Node) : List Token :=
  enclose signs level node (bare names signs node)

/-- The tokens of arguments. -/
def spellArguments (nodes : List Node) : List Token :=
  (separated names signs nodes).tail

end

/-! ## Building derivations -/

section

variable {names : Bindings ClassId} {level : Level} {node : Node} {tokens : List Token}

/-- An operand of a level is one of every looser level. -/
theorem Derives.of_rank_le {level tighter : Level}
    (h : Derives names (.operand tighter node) tokens) (hrank : level.rank ≤ tighter.rank) :
    Derives names (.operand level node) tokens := by
  by_cases heq : level.rank = tighter.rank
  · have hlevel : level = tighter := by
      cases level <;> cases tighter <;> first | rfl | cases heq
    exact hlevel ▸ h
  · have hprimary : level ≠ .primary := by
      intro hlevel
      subst hlevel
      cases tighter <;> first | exact heq rfl | exact absurd hrank (by decide)
    -- one level at a time
    have hnext := Level.rank_next hprimary
    apply Derives.of_next level _ hprimary
    apply h.of_rank_le
    omega
termination_by tighter.rank - level.rank

/-- An operator joins one operand more from the right. -/
theorem Derives.join {operator : Token} {join : Node → Node → Node} {left right : Node}
    {more : List Token} (hleft : Derives names (.operand level left) tokens)
    (hjoin : level.joins operator = some join)
    (hright : Derives names (.operand level.next right) more) :
    Derives names (.operand level (join left right)) (tokens ++ operator :: more) := by
  cases hleft with
  | chain hlevel hfirst htail =>
      rw [List.append_assoc]
      exact .chain hlevel hfirst (htail.tailSnoc hjoin hright)
  | _ => cases hjoin

theorem derives_arguments {nodes : List Node} (h : Derives names (.moreArguments nodes) tokens) :
    Derives names (.arguments nodes) tokens.tail := by
  cases h with
  | moreArgumentsEnd => exact .argumentsEnd
  | moreArgumentsMore hfirst hothers => exact .argumentsMore hfirst hothers

/-- One call more behind calls. -/
theorem Derives.callsSnoc {receiver whole : Node} {method : String} {values : List Node}
    {more : List Token} (h : Derives names (.calls receiver whole) tokens)
    (hvalues : Derives names (.arguments values) more) :
    Derives names (.calls receiver (.call whole method values))
      (tokens ++ .symbol '.' :: .identifier method :: .symbol '(' :: more ++ [.symbol ')']) := by
  generalize hphrase : Phrase.calls receiver whole = phrase at h
  induction h generalizing receiver with
  | callsEnd =>
      cases hphrase
      exact .callsMore hvalues (.callsEnd _)
  | callsMore hvalues' hmore ihvalues ihmore =>
      cases hphrase
      have hcalls := Derives.callsMore hvalues' (ihmore rfl)
      simpa only [List.cons_append, List.append_assoc] using hcalls
  | _ => cases hphrase

/-- The tokens are a dotted name, its arguments and further calls, and mean this. -/
def Applies (names : Bindings ClassId) (node : Node) (tokens : List Token) : Prop :=
  ∃ name fields values call given more, Derives names (.arguments values) given ∧
    applied? names name fields values = some call ∧ Derives names (.calls call node) more ∧
    tokens = dottedTokens name fields ++ .symbol '(' :: given ++ .symbol ')' :: more

/-- A call of any method may follow the tokens. -/
def Calls (names : Bindings ClassId) (node : Node) (tokens : List Token) : Prop :=
  ∀ (method : String) {values : List Node} {given : List Token},
    Derives names (.arguments values) given →
    Applies names (.call node method values)
      (tokens ++ .symbol '.' :: .identifier method :: .symbol '(' :: given ++ [.symbol ')'])

theorem Applies.derives (h : Applies names node tokens) :
    Derives names (.operand .primary node) tokens := by
  obtain ⟨name, fields, values, call, given, more, hvalues, hcall, hmore, rfl⟩ := h
  exact .application hvalues hcall hmore

theorem Applies.calls (h : Applies names node tokens) : Calls names node tokens := by
  intro method values given hvalues
  obtain ⟨name, fields, first, call, before, more, hfirst, hcall, hmore, rfl⟩ := h
  refine ⟨name, fields, first, call, before, _, hfirst, hcall, hmore.callsSnoc hvalues, ?_⟩
  simp

theorem calls_variable (names : Bindings ClassId) (name : String) (fields : List String) :
    Calls names (.variable name fields) (dottedTokens name fields) := by
  intro method values given hvalues
  refine ⟨name, fields ++ [method], values, _, given, [], hvalues, ?_, .callsEnd _, ?_⟩
  · simp [applied?]
  · simp [dottedTokens_append]

end

/-! ## What is written derives -/

section

variable {names : Bindings ClassId}

theorem Derives.enclose {signs : Node → Bool} {node : Node} {tokens : List Token} (level : Level)
    (h : Derives names (.operand (levelOf signs node) node) tokens) :
    Derives names (.operand level node) (enclose signs level node tokens) := by
  unfold Expression.enclose
  split
  · next hrank => exact h.of_rank_le hrank
  · next hrank =>
      have htest : Derives names (.operand .test node) tokens := h.of_rank_le (Nat.zero_le _)
      exact (Derives.parenthesized htest).of_rank_le (by cases level <;> decide)

mutual

/-- What is written of an expression derives from it, and what is written of a receiver may
be called. -/
theorem derives_bare (signs : Node → Bool) {node : Node}
    (h : node.IsExpression (Callable names)) :
    Derives names (.operand (levelOf signs node) node) (bare names signs node) ∧
      (node.IsReceiver → Calls names node (bare names signs node)) := by
  match node with
  | .number origin value =>
      obtain ⟨value, rfl⟩ := Int.eq_ofNat_of_zero_le h
      exact ⟨.literal (show literal? origin _ = some _ from rfl), False.elim⟩
  | .text origin content =>
      exact ⟨.literal (show literal? origin _ = some _ from rfl), False.elim⟩
  | .flag origin value =>
      refine ⟨?_, False.elim⟩
      cases value <;> exact .literal (show literal? origin _ = some _ from rfl)
  | .absent => exact ⟨.literal (show literal? (.made 0) _ = some _ from rfl), False.elim⟩
  | .variable name fields => exact ⟨.dotted name fields, fun _ => calls_variable names name fields⟩
  | .arithmetic operator left right =>
      refine ⟨?_, False.elim⟩
      have hleft := (derives_bare signs h.1).1.enclose (arithmeticLevel operator)
      have hright := (derives_bare signs h.2).1
      rw [bare, levelOf]
      split
      · next hsign =>
          unfold writesSign at hsign
          split at hsign
          · next origin => exact .sign origin (hright.enclose .signed)
          · cases hsign
      · exact hleft.join (joins_arithmetic operator) (hright.enclose _)
  | .connective word left right =>
      refine ⟨?_, False.elim⟩
      rw [bare]
      exact ((derives_bare signs h.1).1.enclose _).join (joins_connective word)
        ((derives_bare signs h.2).1.enclose _)
  | .negation operand =>
      refine ⟨?_, False.elim⟩
      have hoperand : operand.IsExpression (Callable names) := h
      rw [bare]
      exact .negation ((derives_bare signs hoperand).1.enclose .negated)
  | .comparison found left right =>
      refine ⟨?_, False.elim⟩
      rw [bare]
      exact .comparison ((derives_bare signs h.1).1.enclose .sum) (relation_relationToken found)
        ((derives_bare signs h.2).1.enclose .sum)
  | .stringify operand =>
      have hoperand : operand.IsExpression (Callable names) := h
      have hbare : Derives names (.operand .test operand) (bare names signs operand) :=
        (derives_bare signs hoperand).1.of_rank_le (Nat.zero_le _)
      have happlies : Applies names (.stringify operand) (bare names signs (.stringify operand)) :=
        ⟨strName, [], [operand], _, _, [], .argumentsMore hbare .moreArgumentsEnd, rfl, .callsEnd _,
          by simp [bare, dottedTokens]⟩
      exact ⟨happlies.derives, fun _ => happlies.calls⟩
  | .call receiver method values =>
      obtain ⟨hreceiver, hexpression, hvalues⟩ := h
      -- whatever the receiver is, a call may follow it
      have happlies := (derives_bare signs hexpression).2 hreceiver method
        (derives_arguments (derives_separated signs hvalues))
      exact ⟨happlies.derives, fun _ => happlies.calls⟩
  | .create cls values =>
      obtain ⟨⟨name, hne, hname⟩, hvalues⟩ := h
      -- a class that is called `str` cannot be made by that name
      obtain ⟨haccepts, hfound⟩ := nameFor_spec (· != strName) (bne_iff_ne.mpr hne) hname
      have hvalues' := derives_arguments (derives_separated signs hvalues)
      have happlies :
          Applies names (.create cls values) (bare names signs (.create cls values)) := by
        refine ⟨nameFor (· != strName) names cls, [], values, _, _, [], hvalues', ?_, .callsEnd _,
          by simp [bare, dottedTokens]⟩
        simp [applied?, hfound, bne_iff_ne.mp haccepts]
      exact ⟨happlies.derives, fun _ => happlies.calls⟩

theorem derives_separated (signs : Node → Bool) {nodes : List Node}
    (h : Node.AreExpressions (Callable names) nodes) :
    Derives names (.moreArguments nodes) (separated names signs nodes) := by
  match nodes with
  | [] => exact .moreArgumentsEnd
  | first :: others =>
      exact .moreArgumentsMore ((derives_bare signs h.1).1.of_rank_le (Nat.zero_le _))
        (derives_separated signs h.2)

end

/-- What is written of an expression derives from it, wherever it stands. -/
theorem derives_spell (signs : Node → Bool) (level : Level) {node : Node}
    (h : node.IsExpression (Callable names)) :
    Derives names (.operand level node) (spell names signs level node) :=
  (derives_bare signs h).1.enclose level

theorem derives_spellArguments (signs : Node → Bool) {nodes : List Node}
    (h : Node.AreExpressions (Callable names) nodes) :
    Derives names (.arguments nodes) (spellArguments names signs nodes) :=
  derives_arguments (derives_separated signs h)

end

/-! ## Parentheses are written only where every text has them -/

section

variable {names : Bindings ClassId} {signs : Node → Bool} {level : Level} {node : Node}
  {tokens : List Token}

theorem rank_le_levelOf_join {operator : Token} {join : Node → Node → Node}
    (h : level.joins operator = some join) (left right : Node) :
    level.rank ≤ (levelOf signs (join left right)).rank := by
  have harithmetic (operator : Arithmetic) :
      (arithmeticLevel operator).rank ≤
        (levelOf signs (.arithmetic operator left right)).rank := by
    rw [levelOf]
    split
    · cases operator <;> decide
    · exact Nat.le_refl _
  rcases joins_cases h with ⟨rfl, -, rfl⟩ | ⟨rfl, -, rfl⟩ | ⟨rfl, -, rfl⟩ | ⟨rfl, -, rfl⟩ |
    ⟨rfl, -, rfl⟩ | ⟨rfl, -, rfl⟩
  · exact Nat.le_refl _
  · exact Nat.le_refl _
  · exact harithmetic .add
  · exact harithmetic .subtract
  · exact harithmetic .multiply
  · exact harithmetic .divide

theorem levelOf_applied {name : String} {fields : List String} {values : List Node} {call : Node}
    (h : applied? names name fields values = some call) : levelOf signs call = .primary := by
  unfold applied? at h
  split at h
  · cases h
    rfl
  · split at h
    · split at h <;> cases h
      rfl
    · obtain ⟨cls, -, rfl⟩ := Option.map_eq_some_iff.mp h
      rfl

/-- What a phrase says about parentheses around what derives from it. -/
private def Phrase.Parenthesized (tokens : List Token) : Phrase → Prop
  | operand level node => (levelOf (fun _ => true) node).rank < level.rank →
      ∃ inner, tokens = .symbol '(' :: inner ++ [.symbol ')']
  | tail level left whole =>
    whole = left ∧ tokens = [] ∨ level.rank ≤ (levelOf (fun _ => true) whole).rank
  | calls receiver whole => levelOf (fun _ => true) receiver = .primary →
      levelOf (fun _ => true) whole = .primary
  | _ => True

private theorem Derives.isParenthesized {phrase : Phrase} (h : Derives names phrase tokens) :
    phrase.Parenthesized tokens := by
  induction h with
  | @chain level first whole tokens more hlevel hfirst hmore ihfirst ihmore =>
      intro hrank
      -- an operand alone was in parentheses already, and a joined one is of this level
      rcases ihmore with ⟨rfl, rfl⟩ | hle
      · rw [List.append_nil]
        apply ihfirst
        rw [Level.rank_next hlevel]
        exact Nat.lt_succ_of_lt hrank
      · exact absurd hrank (Nat.not_lt_of_le hle)
  | tailEnd => exact .inl ⟨rfl, rfl⟩
  | tailMore hjoin hright hmore ihright ihmore =>
      rcases ihmore with ⟨rfl, -⟩ | hle
      · exact .inr (rank_le_levelOf_join hjoin _ _)
      · exact .inr hle
  | sign origin h ih => exact fun hrank => absurd hrank (Nat.lt_irrefl _)
  | parenthesized h ih => exact fun _ => ⟨_, rfl⟩
  | negation => exact fun hrank => absurd hrank (Nat.lt_irrefl _)
  | comparison => exact fun hrank => absurd hrank (Nat.lt_irrefl _)
  | literal h =>
      intro hrank
      unfold literal? at h
      split at h <;> cases h <;> exact absurd hrank (Nat.lt_irrefl _)
  | dotted => exact fun hrank => absurd hrank (Nat.lt_irrefl _)
  | application hvalues hcall hmore ihvalues ihmore =>
      intro hrank
      rw [ihmore (levelOf_applied hcall)] at hrank
      exact absurd hrank (Nat.lt_irrefl _)
  | callsEnd => exact id
  | callsMore hvalues hmore ihvalues ihmore => exact fun _ => ihmore rfl
  | argumentsEnd => trivial
  | argumentsMore => trivial
  | moreArgumentsEnd => trivial
  | moreArgumentsMore => trivial

/-- An operand that is written in parentheses is in parentheses in every text. -/
theorem Derives.eq_parentheses (h : Derives names (.operand level node) tokens)
    (hspell : spell names (fun _ => true) level node ≠ bare names (fun _ => true) node) :
    ∃ inner, tokens = .symbol '(' :: inner ++ [.symbol ')'] := by
  have hrank : ¬ level.rank ≤ (levelOf (fun _ => true) node).rank := by
    intro hrank
    exact hspell (if_pos hrank)
  exact h.isParenthesized (Nat.lt_of_not_le hrank)

end

end Offside.Expression
