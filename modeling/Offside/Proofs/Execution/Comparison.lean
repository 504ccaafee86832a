import Mathlib.Data.String.Basic
import Offside.Proofs.Execution.Calls

/-!
# Comparisons

Two numbers, two texts or two flags are ordered: numbers by value, texts by the code points of
their characters, and falsity comes before truth (`Object.Precedes`).  `Relation.Holds` says what
the six comparisons mean by that order, and they answer so (`Run.compare_sameKind`).

Two empty values are equal, and that is all that can be asked of them.  Of any other two values
nothing can be asked, unless the left one is an instance (`Run.compare_incomparable`).  An
instance asks its class, once or twice; the comparisons that are opposite to one another do the
same and differ in the answer (`Run.compare_instance`, `Run.compare_opposite`).
-/

namespace Offside

/-! ## The order of plain objects -/

namespace Object

/-- Both are numbers, both are texts, or both are flags. -/
inductive SameKind : Object → Object → Prop
  | number (origin source : Origin) (value other : Int) :
      SameKind (.number origin value) (.number source other)
  | text (origin source : Origin) (content other : String) :
      SameKind (.text origin content) (.text source other)
  | flag (origin source : Origin) (value other : Bool) :
      SameKind (.flag origin value) (.flag source other)

/-- The one comes before the other in the order of their kind. -/
inductive Precedes : Object → Object → Prop
  | number {origin source : Origin} {value other : Int} (h : value < other) :
      Precedes (.number origin value) (.number source other)
  /-- At the first difference there is a lower code point, or nothing any more. -/
  | text {origin source : Origin} {content other : String}
      (h : List.Lex (fun one two : Char => one.toNat < two.toNat) content.toList other.toList) :
      Precedes (.text origin content) (.text source other)
  | flag {origin source : Origin} : Precedes (.flag origin false) (.flag source true)

/-- Both stand for the same. -/
inductive Equals : Object → Object → Prop
  | number {origin source : Origin} (value : Int) :
      Equals (.number origin value) (.number source value)
  | text {origin source : Origin} (content : String) :
      Equals (.text origin content) (.text source content)
  | flag {origin source : Origin} (value : Bool) :
      Equals (.flag origin value) (.flag source value)

variable {one two three : Object}

theorem SameKind.symm (h : one.SameKind two) : two.SameKind one := by
  cases h <;> constructor

theorem SameKind.trans (h : one.SameKind two) (hnext : two.SameKind three) :
    one.SameKind three := by
  cases h <;> cases hnext <;> constructor

@[simp] theorem precedes_number_iff {origin source : Origin} {value other : Int} :
    (number origin value).Precedes (number source other) ↔ value < other :=
  ⟨fun h => by cases h with | number h => exact h, .number⟩

@[simp] theorem precedes_text_iff {origin source : Origin} {content other : String} :
    (text origin content).Precedes (text source other) ↔ content < other :=
  ⟨fun h => by cases h with | text h => exact h, .text⟩

@[simp] theorem precedes_flag_iff {origin source : Origin} {value other : Bool} :
    (flag origin value).Precedes (flag source other) ↔ value = false ∧ other = true := by
  constructor
  · intro h
    cases h
    exact ⟨rfl, rfl⟩
  · rintro ⟨rfl, rfl⟩
    exact .flag

@[simp] theorem equals_number_iff {origin source : Origin} {value other : Int} :
    (number origin value).Equals (number source other) ↔ value = other :=
  ⟨fun h => by cases h; rfl, fun h => h ▸ .number value⟩

@[simp] theorem equals_text_iff {origin source : Origin} {content other : String} :
    (text origin content).Equals (text source other) ↔ content = other :=
  ⟨fun h => by cases h; rfl, fun h => h ▸ .text content⟩

@[simp] theorem equals_flag_iff {origin source : Origin} {value other : Bool} :
    (flag origin value).Equals (flag source other) ↔ value = other :=
  ⟨fun h => by cases h; rfl, fun h => h ▸ .flag value⟩

theorem Equals.symm (h : one.Equals two) : two.Equals one := by
  cases h with
  | number value => exact .number value
  | text content => exact .text content
  | flag value => exact .flag value

theorem equals_comm : one.Equals two ↔ two.Equals one :=
  ⟨.symm, .symm⟩

theorem Precedes.trans (h : one.Precedes two) (hnext : two.Precedes three) :
    one.Precedes three := by
  cases h with
  | number h =>
      cases hnext with
      | number hnext => exact .number (Int.lt_trans h hnext)
  | @text origin source content other h =>
      cases hnext with
      | @text _ _ _ last hnext =>
          have hless : content < last := String.lt_trans (b := other) h hnext
          exact .text hless
  | flag => cases hnext

/-- Nothing comes before what equals it. -/
theorem Precedes.not_equals (h : one.Precedes two) : ¬ one.Equals two := by
  intro hequals
  cases hequals with
  | number value => exact Int.lt_irrefl value (precedes_number_iff.mp h)
  | text content => exact String.lt_irrefl content (precedes_text_iff.mp h)
  | flag value => cases h

theorem Precedes.not_precedes (h : one.Precedes two) : ¬ two.Precedes one := by
  intro hback
  have hself := h.trans hback
  cases one with
  | number origin value => exact hself.not_equals (.number value)
  | text origin content => exact hself.not_equals (.text content)
  | flag origin value => exact hself.not_equals (.flag value)
  | ofClass | ofInstance => cases h

/-- Of two objects of one kind one comes first, or they are equal. -/
theorem SameKind.trichotomy (h : one.SameKind two) :
    one.Precedes two ∨ one.Equals two ∨ two.Precedes one := by
  cases h with
  | number origin source value other =>
      rw [precedes_number_iff, equals_number_iff, precedes_number_iff]
      exact Int.lt_trichotomy value other
  | text origin source content other =>
      rw [precedes_text_iff, equals_text_iff, precedes_text_iff]
      exact lt_trichotomy content other
  | flag origin source value other =>
      rw [precedes_flag_iff, equals_flag_iff, precedes_flag_iff]
      cases value <;> cases other <;> simp

theorem SameKind.precedes_iff (h : one.SameKind two) :
    two.Precedes one ↔ ¬ (one.Precedes two ∨ one.Equals two) := by
  constructor
  · rintro hback (hfirst | hequals)
    · exact hback.not_precedes hfirst
    · exact hback.not_equals hequals.symm
  · intro hnot
    obtain hfirst | hequals | hlast := h.trichotomy
    · exact absurd (.inl hfirst) hnot
    · exact absurd (.inr hequals) hnot
    · exact hlast

theorem SameKind.not_precedes_iff (h : one.SameKind two) :
    ¬ one.Precedes two ↔ two.Precedes one ∨ one.Equals two := by
  constructor
  · intro hnot
    obtain hfirst | hequals | hlast := h.trichotomy
    · exact absurd hfirst hnot
    · exact .inr hequals
    · exact .inl hlast
  · rintro (hback | hequals) hfirst
    · exact hback.not_precedes hfirst
    · exact hfirst.not_equals hequals

end Object

/-- What a value holds, if it is not on its way out of a method. -/
inductive Handle.Contains : Handle → Option Object → Prop
  | empty : Contains .empty none
  | holding (object : Object) (owning : Bool) : Contains (.holding object owning) (some object)

theorem Handle.Contains.inspect_eq {value : Handle} {content : Option Object}
    (h : value.Contains content) : Run.inspect value = pure content := by
  cases h <;> rfl

/-! ## What the comparisons mean -/

namespace Relation

/-- What a comparison means for two objects of one kind. -/
def Holds : Relation → Object → Object → Prop
  | equal, one, two => one.Equals two
  | notEqual, one, two => ¬ one.Equals two
  | less, one, two => one.Precedes two
  | lessOrEqual, one, two => one.Precedes two ∨ one.Equals two
  | greater, one, two => two.Precedes one
  | greaterOrEqual, one, two => two.Precedes one ∨ one.Equals two

/-- What a comparison is about, as the message says it if two values do not compare. -/
def question : Relation → Question
  | equal | notEqual => .equality
  | less | lessOrEqual | greater | greaterOrEqual => .order

end Relation

/-- Where the question has an answer without asking a class. -/
def Question.IsPlain : Question → Option Object → Option Object → Prop
  | _, some one, some two => one.SameKind two
  | equality, none, none => True
  | _, _, _ => False

namespace Run

variable {classes : Classes} {run : Node → Run Handle} {left right : Handle} {one two : Object}

/-! ## Two objects of one kind -/

/-- Two objects of one kind are equal or not, as their values are. -/
theorem equal_sameKind (classes : Classes) (run : Node → Run Handle)
    (hleft : left.Contains (some one)) (hright : right.Contains (some two))
    (h : one.SameKind two) :
    ∃ answer, equal classes run left right = pure answer ∧ (answer = true ↔ one.Equals two) := by
  unfold equal
  rw [hleft.inspect_eq, pure_bind]
  cases h with
  | number origin source value other =>
      refine ⟨value == other, ?_, ?_⟩
      · dsimp only
        rw [hright.inspect_eq, pure_bind]
      · rw [beq_iff_eq, Object.equals_number_iff]
  | text origin source content other =>
      refine ⟨content == other, ?_, ?_⟩
      · dsimp only
        rw [hright.inspect_eq, pure_bind]
      · rw [beq_iff_eq, Object.equals_text_iff]
  | flag origin source value other =>
      refine ⟨value == other, ?_, ?_⟩
      · dsimp only
        rw [hright.inspect_eq, pure_bind]
      · rw [beq_iff_eq, Object.equals_flag_iff]

/-- One of two objects of one kind is less if it comes first. -/
theorem less_sameKind (classes : Classes) (run : Node → Run Handle)
    (hleft : left.Contains (some one)) (hright : right.Contains (some two))
    (h : one.SameKind two) :
    ∃ answer, less classes run left right = pure answer ∧
      (answer = true ↔ one.Precedes two) := by
  unfold less
  rw [hleft.inspect_eq, pure_bind]
  cases h with
  | number origin source value other =>
      refine ⟨decide (value < other), ?_, ?_⟩
      · dsimp only
        rw [hright.inspect_eq, pure_bind]
      · rw [decide_eq_true_iff, Object.precedes_number_iff]
  | text origin source content other =>
      refine ⟨decide (content < other), ?_, ?_⟩
      · dsimp only
        rw [hright.inspect_eq, pure_bind]
      · rw [decide_eq_true_iff, Object.precedes_text_iff]
  | flag origin source value other =>
      refine ⟨!value && other, ?_, ?_⟩
      · dsimp only
        rw [hright.inspect_eq, pure_bind]
      · rw [Object.precedes_flag_iff]
        simp

/-- Of two objects of one kind every comparison says what holds of them, and does nothing
else. -/
theorem compare_sameKind (classes : Classes) (run : Node → Run Handle)
    (hleft : left.Contains (some one)) (hright : right.Contains (some two))
    (h : one.SameKind two) (relation : Relation) :
    ∃ answer, compare classes run relation left right = pure answer ∧
      (answer = true ↔ relation.Holds one two) := by
  obtain ⟨same, hequal, hsame⟩ := equal_sameKind classes run hleft hright h
  obtain ⟨below, hless, hbelow⟩ := less_sameKind classes run hleft hright h
  cases relation with
  | equal => exact ⟨same, hequal, hsame⟩
  | less => exact ⟨below, hless, hbelow⟩
  | notEqual =>
      refine ⟨!same, ?_, ?_⟩
      · rw [compare, hequal, pure_bind]
      · rw [Relation.Holds, ← hsame, Bool.not_eq_true', Bool.not_eq_true]
  | greaterOrEqual =>
      refine ⟨!below, ?_, ?_⟩
      · rw [compare, hless, pure_bind]
      · rw [Relation.Holds, ← h.not_precedes_iff, ← hbelow, Bool.not_eq_true', Bool.not_eq_true]
  | lessOrEqual =>
      refine ⟨below || same, ?_, ?_⟩
      · rw [compare, hless, pure_bind, hequal]
        cases below <;> rfl
      · rw [Relation.Holds, ← hbelow, ← hsame, Bool.or_eq_true]
  | greater =>
      refine ⟨!(below || same), ?_, ?_⟩
      · rw [compare, hless, pure_bind, hequal, pure_bind]
        cases below <;> rfl
      · rw [Relation.Holds, h.precedes_iff, ← hsame, ← hbelow, ← Bool.or_eq_true,
          Bool.not_eq_true', Bool.not_eq_true]

/-- Whatever says the same as the comparison is its answer. -/
theorem compare_eq (hleft : left.Contains (some one)) (hright : right.Contains (some two))
    (h : one.SameKind two) {relation : Relation} {answer : Bool}
    (hanswer : answer = true ↔ relation.Holds one two) :
    compare classes run relation left right = pure answer := by
  obtain ⟨found, hfound, hholds⟩ :=
    compare_sameKind classes run hleft hright h relation
  rw [hfound, Bool.eq_iff_iff.mpr (hholds.trans hanswer.symm)]

/-- The comparisons of two objects of one kind fit together. -/
theorem compare_fits (hleft : left.Contains (some one)) (hright : right.Contains (some two))
    (h : one.SameKind two) :
    ∃ below same above, [below, same, above].count true = 1 ∧
      compare classes run .less left right = pure below ∧
      compare classes run .equal left right = pure same ∧
      compare classes run .less right left = pure above ∧
      compare classes run .greater left right = pure above ∧
      compare classes run .lessOrEqual left right = pure (below || same) ∧
      compare classes run .lessOrEqual right left = pure (above || same) ∧
      compare classes run .greaterOrEqual left right = pure (above || same) ∧
      compare classes run .notEqual left right = pure (!same) := by
  obtain ⟨below, hless, hbelow⟩ :=
    compare_sameKind classes run hleft hright h .less
  obtain ⟨same, hequal, hsame⟩ :=
    compare_sameKind classes run hleft hright h .equal
  obtain ⟨above, hback, habove⟩ :=
    compare_sameKind classes run hright hleft h.symm .less
  simp only [Relation.Holds] at hbelow hsame habove
  refine ⟨below, same, above, ?_, hless, hequal, hback, ?_, ?_, ?_, ?_, ?_⟩
  · have hlast : above = !(below || same) := by
      rw [Bool.eq_iff_iff, habove, h.precedes_iff, ← hbelow, ← hsame, Bool.not_eq_true',
        ← Bool.not_eq_true, Bool.or_eq_true]
    have hapart : ¬ (below = true ∧ same = true) := by
      rw [hbelow, hsame]
      exact fun ⟨hfirst, hequals⟩ => hfirst.not_equals hequals
    subst hlast
    cases below <;> cases same <;> first | rfl | exact absurd ⟨rfl, rfl⟩ hapart
  · exact compare_eq hleft hright h habove
  · exact compare_eq hleft hright h (by rw [Bool.or_eq_true, hbelow, hsame, Relation.Holds])
  · apply compare_eq hright hleft h.symm
    rw [Bool.or_eq_true, habove, hsame, Relation.Holds, Object.equals_comm]
  · exact compare_eq hleft hright h (by rw [Bool.or_eq_true, habove, hsame, Relation.Holds])
  · apply compare_eq hleft hright h
    rw [Bool.not_eq_true', ← Bool.not_eq_true, hsame, Relation.Holds]

/-! ## Values that do not compare -/

section

variable {first second : Option Object} (hleft : left.Contains first)
  (hright : right.Contains second) (hinstance : ∀ id, first ≠ some (.ofInstance id))
include hleft hright hinstance

theorem equal_incomparable (hnot : ¬ Question.equality.IsPlain first second) :
    equal classes run left right = incomparable classes .equality first second := by
  unfold equal
  rw [hleft.inspect_eq, pure_bind]
  split
  · exact absurd rfl (hinstance _)
  · rw [hright.inspect_eq, pure_bind]
    split
    · exact absurd (.number ..) hnot
    · exact absurd (.text ..) hnot
    · exact absurd (.flag ..) hnot
    · exact absurd trivial hnot
    · rfl

theorem less_incomparable (hnot : ¬ Question.order.IsPlain first second) :
    less classes run left right = incomparable classes .order first second := by
  unfold less
  rw [hleft.inspect_eq, pure_bind]
  split
  · exact absurd rfl (hinstance _)
  · rw [hright.inspect_eq, pure_bind]
    split
    · exact absurd (.number ..) hnot
    · exact absurd (.text ..) hnot
    · exact absurd (.flag ..) hnot
    · rfl

end

/-- If it holds a number, then one that is not too long to be written. -/
def IsShort (content : Option Object) : Prop :=
  ∀ origin value, content = some (.number origin value) →
    (Nat.toDigits 10 value.natAbs).length ≤ Decimal.digitLimit

/-- Whatever is not too long to be written has a description. -/
theorem exists_describeAny (classes : Classes) {content : Option Object} (h : IsShort content)
    (heap : Heap) :
    ∃ text, Object.describeAny classes heap content = .ok text := by
  cases content with
  | none => exact ⟨_, rfl⟩
  | some object =>
      cases object with
      | number origin value =>
          have hwrite : Decimal.write? value ≠ none := by
            rw [Ne, Decimal.write?_eq_none_iff_length, Nat.not_lt]
            exact h origin value rfl
          obtain ⟨digits, hdigits⟩ := Option.ne_none_iff_exists'.mp hwrite
          refine ⟨"Number(" ++ digits ++ ")", ?_⟩
          rw [Object.describeAny, Object.describe, hdigits]
      | text | flag | ofClass | ofInstance => exact ⟨_, rfl⟩

/-- Where a comparison has no answer, it fails, with the descriptions of both values. -/
theorem compare_incomparable {first second : Option Object} (hleft : left.Contains first)
    (hright : right.Contains second) (hinstance : ∀ id, first ≠ some (.ofInstance id))
    (hfirst : IsShort first) (hsecond : IsShort second) (relation : Relation)
    (hnot : ¬ relation.question.IsPlain first second) (state : State) :
    ∃ leftText rightText, Object.describeAny classes state.heap first = .ok leftText ∧
      Object.describeAny classes state.heap second = .ok rightText ∧
      compare classes run relation left right state =
        .error (.fault (.notComparable relation.question leftText rightText)) state := by
  obtain ⟨leftText, hleftText⟩ := exists_describeAny classes hfirst state.heap
  obtain ⟨rightText, hrightText⟩ := exists_describeAny classes hsecond state.heap
  refine ⟨leftText, rightText, hleftText, hrightText, ?_⟩
  have hfails (question : Question) : (incomparable classes question first second : Run Bool)
      state = .error (.fault (.notComparable question leftText rightText)) state := by
    unfold incomparable
    rw [hleftText, hrightText]
    rfl
  -- every comparison begins with the question that it is about
  cases relation with
  | equal =>
      rw [compare, equal_incomparable hleft hright hinstance hnot]
      exact hfails .equality
  | notEqual =>
      rw [compare, equal_incomparable hleft hright hinstance hnot]
      exact bind_eq_error_iff.mpr (.inl (hfails .equality))
  | less =>
      rw [compare, less_incomparable hleft hright hinstance hnot]
      exact hfails .order
  | lessOrEqual | greater | greaterOrEqual =>
      rw [compare, less_incomparable hleft hright hinstance hnot]
      exact bind_eq_error_iff.mpr (.inl (hfails .order))

/-! ## Instances -/

/-- An instance asks its class whether it is less, and if not, whether it is equal. -/
theorem compare_instance {id : InstanceId} (hleft : left.Contains (some (.ofInstance id))) :
    compare classes run .equal left right =
        (do truth (← call classes run id Special.equal.name [right])) ∧
      compare classes run .less left right =
        (do truth (← call classes run id Special.less.name [right])) ∧
      compare classes run .lessOrEqual left right = (do
        if ← truth (← call classes run id Special.less.name [right]) then return true
        else truth (← call classes run id Special.equal.name [right])) := by
  have hequal : equal classes run left right = askClass classes run id .equal right := by
    unfold equal
    rw [hleft.inspect_eq, pure_bind]
  have hless : less classes run left right = askClass classes run id .less right := by
    unfold less
    rw [hleft.inspect_eq, pure_bind]
  refine ⟨hequal, hless, ?_⟩
  rw [compare, hless, hequal, askClass, askClass, bind_assoc]

/-- Opposite comparisons do the same and answer the opposite. -/
theorem compare_opposite (classes : Classes) (run : Node → Run Handle) (left right : Handle) :
    compare classes run .notEqual left right =
        (do return !(← compare classes run .equal left right)) ∧
      compare classes run .greaterOrEqual left right =
        (do return !(← compare classes run .less left right)) ∧
      compare classes run .greater left right =
        (do return !(← compare classes run .lessOrEqual left right)) := by
  refine ⟨rfl, rfl, ?_⟩
  rw [compare, compare, bind_assoc]
  congr 1
  funext below
  cases below <;> simp

/-! ## One order -/

/-- What the six comparisons come to, whatever classes there are and however their methods run. -/
structure OneOrder (classes : Classes) (run : Node → Run Handle) : Prop where
  /-- Of two objects of one kind, every comparison says what holds of them. -/
  sameKind : ∀ {left right : Handle} {one two : Object}, left.Contains (some one) →
    right.Contains (some two) → one.SameKind two → ∀ relation,
    ∃ answer, compare classes run relation left right = pure answer ∧
      (answer = true ↔ relation.Holds one two)
  /-- One is less, or both are equal, or the other is less; the other comparisons follow from
  that. -/
  fits : ∀ {left right : Handle} {one two : Object}, left.Contains (some one) →
    right.Contains (some two) → one.SameKind two →
    ∃ below same above, [below, same, above].count true = 1 ∧
      compare classes run .less left right = pure below ∧
      compare classes run .equal left right = pure same ∧
      compare classes run .less right left = pure above ∧
      compare classes run .greater left right = pure above ∧
      compare classes run .lessOrEqual left right = pure (below || same) ∧
      compare classes run .lessOrEqual right left = pure (above || same) ∧
      compare classes run .greaterOrEqual left right = pure (above || same) ∧
      compare classes run .notEqual left right = pure (!same)
  /-- What is less than something is less than all that is greater than that. -/
  transitive : ∀ {left middle right : Handle} {one two three : Object},
    left.Contains (some one) → middle.Contains (some two) → right.Contains (some three) →
    one.SameKind two → two.SameKind three →
    compare classes run .less left middle = pure true →
    compare classes run .less middle right = pure true →
    compare classes run .less left right = pure true
  /-- Two empty values are equal. -/
  empty : compare classes run .equal .empty .empty = pure true ∧
    compare classes run .notEqual .empty .empty = pure false
  /-- In all other cases there is no answer, unless the left value is an instance. -/
  incomparable : ∀ {left right : Handle} {first second : Option Object}, left.Contains first →
    right.Contains second → (∀ id, first ≠ some (.ofInstance id)) → IsShort first →
    IsShort second → ∀ relation : Relation, ¬ relation.question.IsPlain first second →
    ∀ state : State, ∃ leftText rightText,
      Object.describeAny classes state.heap first = .ok leftText ∧
      Object.describeAny classes state.heap second = .ok rightText ∧
      compare classes run relation left right state =
        .error (.fault (.notComparable relation.question leftText rightText)) state
  /-- An instance asks its class whether it is less, and only if not, whether it is equal. -/
  instances : ∀ {left : Handle} {id : InstanceId}, left.Contains (some (.ofInstance id)) →
    ∀ right,
      compare classes run .equal left right =
        (do truth (← call classes run id Special.equal.name [right])) ∧
      compare classes run .less left right =
        (do truth (← call classes run id Special.less.name [right])) ∧
      compare classes run .lessOrEqual left right = (do
        if ← truth (← call classes run id Special.less.name [right]) then return true
        else truth (← call classes run id Special.equal.name [right]))
  /-- Opposite comparisons do the same, fail in the same way, and answer the opposite. -/
  opposite : ∀ left right,
    compare classes run .notEqual left right =
        (do return !(← compare classes run .equal left right)) ∧
      compare classes run .greaterOrEqual left right =
        (do return !(← compare classes run .less left right)) ∧
      compare classes run .greater left right =
        (do return !(← compare classes run .lessOrEqual left right))

theorem eq_of_pure_eq {answer other : Bool} (h : (pure answer : Run Bool) = pure other) :
    answer = other := by
  cases congrFun h default
  rfl

/-- The comparison answers that it holds only if it does. -/
theorem holds_of_compare (hleft : left.Contains (some one)) (hright : right.Contains (some two))
    (h : one.SameKind two) {relation : Relation}
    (hanswer : compare classes run relation left right = pure true) : relation.Holds one two := by
  obtain ⟨answer, hfound, hholds⟩ :=
    compare_sameKind classes run hleft hright h relation
  exact hholds.mp (eq_of_pure_eq (hfound.symm.trans hanswer))

/-- The six comparisons are one order. -/
theorem compare_oneOrder (classes : Classes) (run : Node → Run Handle) :
    OneOrder classes run where
  sameKind := compare_sameKind classes run
  fits := compare_fits
  transitive := by
    intro left middle right one two three hleft hmiddle hright h hnext hless hless'
    have hfirst : one.Precedes two := holds_of_compare hleft hmiddle h hless
    have hsecond : two.Precedes three := holds_of_compare hmiddle hright hnext hless'
    exact compare_eq hleft hright (h.trans hnext) ⟨fun _ => hfirst.trans hsecond, fun _ => rfl⟩
  empty := ⟨rfl, rfl⟩
  incomparable := compare_incomparable
  instances := fun hleft _ => compare_instance hleft
  opposite := compare_opposite classes run

/-- A text comes before one that it begins, and does not compare with a number. -/
theorem compare_oneOrder_sample :
    OneOrder .empty (execute .empty 3) ∧
      (∃ answer, compare .empty (execute .empty 3) .less (.own (.text (.made 0) "a"))
          (.share (.text (.made 1) "ab")) = pure answer ∧ answer = true) ∧
      ∀ state : State, ∃ leftText rightText,
        compare .empty (execute .empty 3) .greater (.own (.text (.made 0) "a"))
            (.own (.number (.made 1) 7)) state =
          .error (.fault (.notComparable .order leftText rightText)) state := by
  have h := compare_oneOrder .empty (execute .empty 3)
  have htext : (Handle.own (.text (.made 0) "a")).Contains (some (.text (.made 0) "a")) :=
    .holding _ true
  refine ⟨h, ?_, fun state => ?_⟩
  · obtain ⟨answer, hanswer, hholds⟩ :=
      h.sameKind htext (.holding (.text (.made 1) "ab") false) (.text ..) .less
    exact ⟨answer, hanswer, hholds.mpr (Object.precedes_text_iff.mpr (by decide))⟩
  · have hshort : IsShort (some (.number (.made 1) 7)) := by
      intro origin value heq
      cases heq
      decide
    obtain ⟨leftText, rightText, -, -, hfails⟩ :=
      h.incomparable htext (.holding (.number (.made 1) 7) true) nofun nofun hshort
        .greater (fun hsame => by cases hsame) state
    exact ⟨leftText, rightText, hfails⟩

end Run

end Offside
