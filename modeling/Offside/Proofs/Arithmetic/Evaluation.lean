import Offside.Execution.Node
import Offside.Proofs.Arithmetic.Formula
import Offside.Proofs.Tree.Shape

/-!
# Running formulas

`Run.Computes` says of a computation that it gives the number that is expected, or divides by
zero where none is, and that it changes nothing but the heap.  The tree of a formula
computes the value of the formula (`Formula.computes_execute`), by induction on the formula:
a computation is followed by the next one through `Computes.bind`, and an operator on two
numbers has one lemma (`computes_calculate`).

A tree that was read has origins of its own in its literals, so the statement is about every
copy of the tree of the formula.
-/

namespace Offside

/-! ## Copies of trees -/

namespace Node

variable {rename : ClassId → ClassId} {copy : Node}

theorem Mirrors.of_number {origin : Origin} {value : Int}
    (h : copy.Mirrors rename (.number origin value)) : ∃ own, copy = .number own value := by
  cases copy <;> cases h
  exact ⟨_, rfl⟩

theorem Mirrors.of_arithmetic {operator : Arithmetic} {left right : Node}
    (h : copy.Mirrors rename (.arithmetic operator left right)) :
    ∃ first second, copy = .arithmetic operator first second ∧ first.Mirrors rename left ∧
      second.Mirrors rename right := by
  cases copy with
  | arithmetic own first second =>
      simp only [Mirrors, shape, arithmetic.injEq] at h
      obtain ⟨rfl, hfirst, hsecond⟩ := h
      exact ⟨first, second, rfl, hfirst, hsecond⟩
  | _ => cases h

theorem Mirrors.of_assign {name : String} {value : Node}
    (h : copy.Mirrors rename (.assign name value)) :
    ∃ own, copy = .assign name own ∧ own.Mirrors rename value := by
  cases copy with
  | assign target own =>
      simp only [Mirrors, shape, assign.injEq] at h
      obtain ⟨rfl, hown⟩ := h
      exact ⟨own, rfl, hown⟩
  | _ => cases h

end Node

/-! ## Computing a number -/

namespace Run

variable {classes : Classes} {run : Node → Run Handle}

/-- What a computation of a number ends with: a value that holds it, or a division by zero
where there is none.  Only the heap may be another one. -/
inductive Gives (before : State) : Option Int → EStateM.Result Stop State Handle → Prop
  | number (origin : Origin) (value : Int) (owning : Bool) (heap : Heap) :
      Gives before (some value) (.ok (.holding (.number origin value) owning)
        { before with heap := heap })
  | divisionByZero (heap : Heap) :
      Gives before none (.error (.fault .divisionByZero) { before with heap := heap })

/-- Whatever state the computation begins in, it gives this. -/
def Computes (computation : Run Handle) (expected : Option Int) : Prop :=
  ∀ state, Gives state expected (computation state)

theorem Gives.of_heap {before : State} {heap : Heap} {expected : Option Int}
    {result : EStateM.Result Stop State Handle}
    (h : Gives { before with heap := heap } expected result) : Gives before expected result := by
  cases h with
  | number origin value owning later => exact .number origin value owning later
  | divisionByZero later => exact .divisionByZero later

theorem computes_pure (origin : Origin) (value : Int) (owning : Bool) :
    Computes (pure (.holding (.number origin value) owning)) (some value) :=
  fun state => .number origin value owning state.heap

theorem computes_makeNumber (value : Int) : Computes (makeNumber value) (some value) :=
  fun state => .number (.made state.heap.made) value true _

theorem computes_fail : Computes (fail .divisionByZero) none :=
  fun state => .divisionByZero state.heap

/-- A computation goes on with the number that the one before it gives. -/
theorem Computes.bind {first : Run Handle} {next : Handle → Run Handle} {expected : Option Int}
    {combine : Int → Option Int} (hfirst : Computes first expected)
    (hnext : ∀ origin value owning,
      Computes (next (.holding (.number origin value) owning)) (combine value)) :
    Computes (first >>= next) (expected.bind combine) := by
  intro state
  have hgives := hfirst state
  have hbind : (first >>= next) state = EStateM.bind first next state := rfl
  rw [hbind, EStateM.bind]
  cases hresult : first state with
  | ok given after =>
      rw [hresult] at hgives
      cases hgives with
      | number origin value owning heap => exact (hnext origin value owning _).of_heap
  | error reason after =>
      rw [hresult] at hgives
      cases hgives with
      | divisionByZero heap => exact .divisionByZero heap

/-- What an operator makes of two numbers. -/
theorem computes_calculate (operator : Arithmetic) (origin origin' : Origin) (first second : Int)
    (owning owning' : Bool) :
    Computes
      (calculate classes run operator (.holding (.number origin first) owning)
        (.holding (.number origin' second) owning'))
      (Formula.combine? operator first second) := by
  cases operator with
  | add => exact computes_makeNumber (first + second)
  | subtract => exact computes_makeNumber (first - second)
  | multiply => exact computes_makeNumber (first * second)
  | divide =>
      rw [Formula.combine?]
      by_cases hzero : second = 0
      · subst hzero
        exact computes_fail
      · have hdivide : calculate classes run .divide (.holding (.number origin first) owning)
            (.holding (.number origin' second) owning') = makeNumber (first.tdiv second) := by
          funext state
          simp [calculate, divide, number?, inspect, hzero, truncatingDiv_eq_tdiv]
        rw [if_neg hzero, hdivide]
        exact computes_makeNumber (first.tdiv second)

end Run

/-! ## Formulas -/

namespace Formula

open Run

/-- How much fuel running the tree of a formula takes. -/
def height : Formula → Nat
  | literal _ => 1
  | negative operand => operand.height + 1
  | operation _ left right => max left.height right.height + 1

theorem height_pos (formula : Formula) : 0 < formula.height := by
  cases formula <;> exact Nat.succ_pos _

/-- An operation computes what its operator makes of the operands. -/
theorem computes_arithmetic {classes : Classes} {fuel : Nat} {operator : Arithmetic}
    {left right : Node} {first second : Option Int}
    (hleft : Computes (execute classes fuel left) first)
    (hright : Computes (execute classes fuel right) second) :
    Computes (execute classes (fuel + 1) (.arithmetic operator left right))
      (first.bind fun value => second.bind fun other => combine? operator value other) :=
  hleft.bind fun _ _ _ => hright.bind fun _ _ _ => computes_calculate operator _ _ _ _ _ _

/-- Running a copy of the tree of a formula computes the value of the formula. -/
theorem computes_execute (formula : Formula) {classes : Classes} {copy : Node}
    {rename : ClassId → ClassId} {fuel : Nat} (hcopy : copy.Mirrors rename formula.node)
    (hfuel : formula.height ≤ fuel) :
    Computes (execute classes fuel copy) formula.value? := by
  obtain ⟨fuel, rfl⟩ : ∃ less, fuel = less + 1 :=
    Nat.exists_eq_add_one.mpr (Nat.lt_of_lt_of_le formula.height_pos hfuel)
  induction formula generalizing copy fuel with
  | literal value =>
      obtain ⟨origin, rfl⟩ := hcopy.of_number
      exact computes_pure origin value false
  | negative operand ih =>
      obtain ⟨zero, inner, rfl, hzero, hinner⟩ := hcopy.of_arithmetic
      obtain ⟨origin, rfl⟩ := hzero.of_number
      rw [height] at hfuel
      obtain ⟨fuel, rfl⟩ : ∃ less, fuel = less + 1 := Nat.exists_eq_add_one.mpr (by
        have hpos := operand.height_pos
        omega)
      have hleft : Computes (execute classes (fuel + 1) (.number origin 0)) (some 0) :=
        computes_pure origin 0 false
      have hboth := @computes_arithmetic _ _ .subtract _ _ _ _ hleft
        (ih hinner fuel (Nat.le_of_succ_le_succ hfuel))
      rw [value?_negative]
      exact hboth
  | operation operator left right ihleft ihright =>
      obtain ⟨first, second, rfl, hfirst, hsecond⟩ := hcopy.of_arithmetic
      rw [height] at hfuel
      obtain ⟨fuel, rfl⟩ : ∃ less, fuel = less + 1 := Nat.exists_eq_add_one.mpr (by
        have hpos := left.height_pos
        omega)
      exact computes_arithmetic (ihleft hfirst fuel (by omega)) (ihright hsecond fuel (by omega))

end Formula

end Offside
