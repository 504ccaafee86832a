import Offside.Proofs.Grammar.Spelling

/-!
# Formulas

Arithmetic without variables: numbers, signs, sums, differences, products and quotients.
`Formula.Evaluates` says what the value of a formula is, over all integers and without a word
about a machine; a quotient is known by its remainder (`IsQuotient`).  A formula has no value
exactly if one of its divisors has the value zero, and else it has one
(`Formula.value?_eq_some_iff`, `Formula.value?_eq_none_iff`).

`Formula.tokens` writes a formula, with parentheses only where its reading would be another
one without them.  What is written derives as an operand (`Formula.derives`), and stands for
the tree `Formula.node`, where a sign is a difference from zero.
-/

namespace Offside

/-! ## Quotients -/

/-- The quotient of two integers, rounded toward zero: the remainder is smaller than the
divisor, and zero or of the sign of the dividend. -/
def IsQuotient (dividend divisor quotient : Int) : Prop :=
  (dividend - quotient * divisor).natAbs < divisor.natAbs ∧
    (dividend - quotient * divisor = 0 ∨
      (dividend - quotient * divisor).sign = dividend.sign)

theorem sub_tdiv_mul (dividend divisor : Int) :
    dividend - dividend.tdiv divisor * divisor = dividend.tmod divisor := by
  have hsum := Int.tmod_add_mul_tdiv dividend divisor
  rw [Int.mul_comm] at hsum
  omega

theorem isQuotient_tdiv {dividend divisor : Int} (h : divisor ≠ 0) :
    IsQuotient dividend divisor (dividend.tdiv divisor) := by
  rw [IsQuotient, sub_tdiv_mul]
  constructor
  · rw [Int.natAbs_tmod]
    exact Nat.mod_lt _ (Int.natAbs_pos.mpr h)
  · by_cases hdvd : divisor ∣ dividend
    · exact .inl (Int.tmod_eq_zero_of_dvd hdvd)
    · exact .inr (by rw [Int.sign_tmod, if_neg hdvd])

/-- The remainder is on the side of zero where the dividend is. -/
theorem IsQuotient.remainder_side {dividend divisor quotient : Int}
    (h : IsQuotient dividend divisor quotient) :
    (0 ≤ dividend → 0 ≤ dividend - quotient * divisor) ∧
      (dividend ≤ 0 → dividend - quotient * divisor ≤ 0) := by
  rcases h.2 with hzero | hsign
  · rw [hzero]
    exact ⟨fun _ => Int.le_refl 0, fun _ => Int.le_refl 0⟩
  · constructor
    · intro hdividend
      rw [← Int.sign_nonneg_iff] at hdividend ⊢
      rwa [hsign]
    · intro hdividend
      rw [← Int.sign_nonpos_iff] at hdividend ⊢
      rwa [hsign]

/-- There is one quotient at most: two remainders on one side of zero do not differ by a
multiple of the divisor. -/
theorem IsQuotient.unique {dividend divisor first second : Int}
    (hfirst : IsQuotient dividend divisor first) (hsecond : IsQuotient dividend divisor second) :
    first = second := by
  have hdivisor : divisor ≠ 0 := by
    intro hzero
    have hlt := hfirst.1
    simp [hzero] at hlt
  have hdifference : (dividend - first * divisor) - (dividend - second * divisor) =
      (second - first) * divisor := by
    rw [Int.sub_mul]
    omega
  have hsmall : ((second - first) * divisor).natAbs < divisor.natAbs := by
    have hside := hfirst.remainder_side
    have hside' := hsecond.remainder_side
    have hlt := hfirst.1
    have hlt' := hsecond.1
    rw [← hdifference]
    omega
  have hzero := Int.eq_zero_of_dvd_of_natAbs_lt_natAbs (Int.dvd_mul_left _ divisor) hsmall
  have hsame := (Int.mul_eq_zero.mp hzero).resolve_right hdivisor
  omega

/-- There is a quotient by every divisor but zero, and it is the truncated one. -/
theorem isQuotient_iff {dividend divisor quotient : Int} :
    IsQuotient dividend divisor quotient ↔
      divisor ≠ 0 ∧ quotient = dividend.tdiv divisor := by
  constructor
  · intro h
    have hdivisor : divisor ≠ 0 := by
      intro hzero
      have hlt := h.1
      simp [hzero] at hlt
    exact ⟨hdivisor, h.unique (isQuotient_tdiv hdivisor)⟩
  · intro h
    rw [h.2]
    exact isQuotient_tdiv h.1

/-! ## Formulas and their values -/

/-- Arithmetic without variables. -/
inductive Formula
  | literal (value : Nat)
  | negative (operand : Formula)
  | operation (operator : Arithmetic) (left right : Formula)
deriving DecidableEq, Repr

namespace Formula

/-- What an operator makes of two integers. -/
def IsResult : Arithmetic → Int → Int → Int → Prop
  | .add, first, second, value => value = first + second
  | .subtract, first, second, value => value = first - second
  | .multiply, first, second, value => value = first * second
  | .divide, first, second, value => IsQuotient first second value

/-- The value of a formula over all integers. -/
inductive Evaluates : Formula → Int → Prop
  | literal (value : Nat) : Evaluates (.literal value) value
  | negative {operand : Formula} {value : Int} (h : Evaluates operand value) :
      Evaluates (.negative operand) (-value)
  | operation {operator : Arithmetic} {left right : Formula} {first second value : Int}
      (hleft : Evaluates left first) (hright : Evaluates right second)
      (hvalue : IsResult operator first second value) :
      Evaluates (.operation operator left right) value

/-- The divisors in a formula. -/
def divisors : Formula → List Formula
  | literal _ => []
  | negative operand => operand.divisors
  | operation .divide left right => right :: left.divisors ++ right.divisors
  | operation _ left right => left.divisors ++ right.divisors

/-- Some divisor has the value zero. -/
def DividesByZero (formula : Formula) : Prop :=
  ∃ divisor ∈ formula.divisors, divisor.Evaluates 0

/-- What an operator makes of two integers, computed; a quotient by zero is nothing. -/
def combine? : Arithmetic → Int → Int → Option Int
  | .add, first, second => some (first + second)
  | .subtract, first, second => some (first - second)
  | .multiply, first, second => some (first * second)
  | .divide, first, second => if second = 0 then none else some (first.tdiv second)

/-- The value of a formula, if it has one. -/
def value? : Formula → Option Int
  | literal value => some value
  | negative operand => operand.value?.map fun value => -value
  | operation operator left right =>
    left.value?.bind fun first => right.value?.bind fun second => combine? operator first second

theorem combine?_eq_some_iff {operator : Arithmetic} {first second value : Int} :
    combine? operator first second = some value ↔ IsResult operator first second value := by
  cases operator with
  | add => exact Option.some_inj.trans eq_comm
  | subtract => exact Option.some_inj.trans eq_comm
  | multiply => exact Option.some_inj.trans eq_comm
  | divide =>
      rw [combine?, IsResult, isQuotient_iff]
      by_cases hzero : second = 0
      · simp [hzero]
      · simp [hzero, eq_comm]

/-- A sign is a difference from zero. -/
theorem value?_negative (operand : Formula) :
    (negative operand).value? = operand.value?.bind fun value => combine? .subtract 0 value := by
  rw [value?]
  cases operand.value? with
  | none => rfl
  | some value => simp [combine?]

/-- The value is the one that is computed. -/
theorem value?_eq_some_iff {formula : Formula} {value : Int} :
    formula.value? = some value ↔ formula.Evaluates value := by
  induction formula generalizing value with
  | literal number =>
      constructor
      · intro h
        cases h
        exact .literal number
      · intro h
        cases h
        rfl
  | negative operand ih =>
      rw [value?, Option.map_eq_some_iff]
      constructor
      · intro h
        obtain ⟨inner, hinner, hvalue⟩ := h
        exact hvalue ▸ .negative (ih.mp hinner)
      · intro h
        cases h with
        | negative hoperand => exact ⟨_, ih.mpr hoperand, rfl⟩
  | operation operator left right ihleft ihright =>
      simp only [value?, Option.bind_eq_some_iff, ihleft, ihright, combine?_eq_some_iff]
      constructor
      · intro h
        obtain ⟨first, hleft, second, hright, hvalue⟩ := h
        exact .operation hleft hright hvalue
      · intro h
        cases h with
        | operation hleft hright hvalue => exact ⟨_, hleft, _, hright, hvalue⟩

/-- There is one value at most. -/
theorem Evaluates.unique {formula : Formula} {first second : Int}
    (hfirst : formula.Evaluates first) (hsecond : formula.Evaluates second) : first = second :=
  Option.some.inj ((value?_eq_some_iff.mpr hfirst).symm.trans (value?_eq_some_iff.mpr hsecond))

theorem dividesByZero_operation {operator : Arithmetic} {left right : Formula} :
    (operation operator left right).DividesByZero ↔
      operator = .divide ∧ right.Evaluates 0 ∨ left.DividesByZero ∨ right.DividesByZero := by
  cases operator <;> simp [DividesByZero, divisors, or_and_right, exists_or]

/-- There is no value exactly if some divisor has the value zero. -/
theorem value?_eq_none_iff {formula : Formula} :
    formula.value? = none ↔ formula.DividesByZero := by
  induction formula with
  | literal number => simp [value?, DividesByZero, divisors]
  | negative operand ih =>
      rw [value?, Option.map_eq_none_iff, ih]
      rfl
  | operation operator left right ihleft ihright =>
      rw [dividesByZero_operation, ← ihleft, ← ihright, ← value?_eq_some_iff, value?]
      cases left.value? with
      | none => simp
      | some first =>
          cases right.value? with
          | none => simp
          | some second => cases operator <;> simp [combine?]

/-! ## Formulas as tokens and trees -/

open Expression (Derives Level arithmeticLevel arithmeticToken)

/-- The level of a formula without parentheses around it. -/
def level : Formula → Level
  | literal _ => .primary
  | negative _ => .signed
  | operation operator _ _ => arithmeticLevel operator

/-- Puts a formula in parentheses if it is too loose for an operand of the level. -/
def enclose (outer : Level) (formula : Formula) (tokens : List Token) : List Token :=
  if outer.rank ≤ formula.level.rank then tokens else .symbol '(' :: tokens ++ [.symbol ')']

/-- The tokens of a formula, with parentheses only where it would be another one without
them. -/
def tokens : Formula → List Token
  | literal value => [.number value]
  | negative operand => .symbol '-' :: enclose .signed operand operand.tokens
  | operation operator left right =>
    enclose (arithmeticLevel operator) left left.tokens ++
      arithmeticToken operator :: enclose (arithmeticLevel operator).next right right.tokens

/-- The tree of a formula, in which a sign is a difference from zero. -/
def node : Formula → Node
  | literal value => .number (.made 0) value
  | negative operand => .arithmetic .subtract (.number (.made 0) 0) operand.node
  | operation operator left right => .arithmetic operator left.node right.node

variable {names : Bindings ClassId}

theorem derives_enclose {formula : Formula} {node : Node} {words : List Token} (outer : Level)
    (h : Derives names (.operand formula.level node) words) :
    Derives names (.operand outer node) (enclose outer formula words) := by
  unfold enclose
  split
  · next hrank => exact h.of_rank_le hrank
  · have hinner : Derives names (.operand .test node) words := h.of_rank_le (Nat.zero_le _)
    exact (Derives.parenthesized hinner).of_rank_le (by cases outer <;> decide)

/-- The tokens of a formula stand for its tree. -/
theorem derives (formula : Formula) :
    Derives names (.operand formula.level formula.node) formula.tokens := by
  induction formula with
  | literal value => exact .literal rfl
  | negative operand ih => exact .sign _ (derives_enclose .signed ih)
  | operation operator left right ihleft ihright =>
      exact (derives_enclose _ ihleft).join (Expression.joins_arithmetic operator)
        (derives_enclose _ ihright)

end Formula

end Offside
