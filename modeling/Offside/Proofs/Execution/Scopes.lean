import Offside.Proofs.Execution.Calls
import Offside.Proofs.Permanence

/-!
# What leaves a scope as it is

A call runs in a scope of its own, and when it ends, in whatever way, the scope of the caller is
there again (`Run.call_cases`).  It does not matter what the body of the method does.  So
everything that runs only through calls leaves the scope as it is, that is, finding a text,
comparing and computing a sum, and with them every expression
(`Node.IsExpression.keepsScope`), by induction on the fuel.

`Run.KeepsScope` speaks of both outcomes at once: of the state behind a value, and of the one in
which a computation stopped.
-/

namespace Offside

namespace Run

variable {α β : Type} {classes : Classes} {run : Node → Run Handle} {state after : State}

/-- However the computation ends, the scope is what it was. -/
def KeepsScope (computation : Run α) : Prop :=
  ∀ state after, Leaves computation state after → after.scope = state.scope

/-! ## Ways of putting computations together -/

theorem Leaves.eq_of_ok {computation : Run α} {between : State} {value : α}
    (h : Leaves computation state after) (hvalue : computation state = .ok value between) :
    after = between := by
  obtain ⟨other, hother⟩ | ⟨reason, hreason⟩ := h
  · cases hvalue.symm.trans hother
    rfl
  · cases hvalue.symm.trans hreason

theorem Leaves.eq_of_error {computation : Run α} {between : State} {reason : Stop}
    (h : Leaves computation state after) (hreason : computation state = .error reason between) :
    after = between := by
  obtain ⟨value, hvalue⟩ | ⟨cause, hcause⟩ := h
  · cases hreason.symm.trans hvalue
  · cases hreason.symm.trans hcause
    rfl

/-- What computations in sequence leave is left by the first one, if that stops, or else by the
one behind it. -/
theorem leaves_bind_iff {first : Run α} {next : α → Run β} :
    Leaves (first >>= next) state after ↔
      (∃ reason, first state = .error reason after) ∨
        ∃ value between, first state = .ok value between ∧ Leaves (next value) between after := by
  unfold Leaves
  constructor
  · rintro (⟨last, hlast⟩ | ⟨reason, hreason⟩)
    · obtain ⟨value, between, hvalue, hnext⟩ := bind_eq_ok_iff.mp hlast
      exact .inr ⟨value, between, hvalue, .inl ⟨last, hnext⟩⟩
    · rcases bind_eq_error_iff.mp hreason with hstop | ⟨value, between, hvalue, hnext⟩
      · exact .inl ⟨reason, hstop⟩
      · exact .inr ⟨value, between, hvalue, .inr ⟨reason, hnext⟩⟩
  · rintro (⟨reason, hstop⟩ | ⟨value, between, hvalue, ⟨last, hnext⟩ | ⟨reason, hnext⟩⟩)
    · exact .inr ⟨reason, bind_eq_error_iff.mpr (.inl hstop)⟩
    · exact .inl ⟨last, bind_eq_ok_iff.mpr ⟨value, between, hvalue, hnext⟩⟩
    · exact .inr ⟨reason, bind_eq_error_iff.mpr (.inr ⟨value, between, hvalue, hnext⟩)⟩

theorem KeepsScope.bind {first : Run α} {next : α → Run β} (hfirst : KeepsScope first)
    (hnext : ∀ value, KeepsScope (next value)) : KeepsScope (first >>= next) := by
  intro state after hleaves
  rcases leaves_bind_iff.mp hleaves with hstop | ⟨value, between, hvalue, hrest⟩
  · exact hfirst state after (.inr hstop)
  · exact (hnext value between after hrest).trans (hfirst state between (.inl ⟨value, hvalue⟩))

/-- What only asks leaves the whole state as it is. -/
theorem Asks.keepsScope {computation : Run α} (h : Asks computation) : KeepsScope computation := by
  intro state after hleaves
  obtain ⟨value, hvalue⟩ | ⟨reason, hreason⟩ := h state
  · rw [hleaves.eq_of_ok hvalue]
  · rw [hleaves.eq_of_error hreason]

theorem KeepsScope.pure (value : α) : KeepsScope (Pure.pure value) :=
  (asks_pure value).keepsScope

theorem keepsScope_stop (reason : Stop) : KeepsScope (stop reason : Run α) :=
  Asks.keepsScope fun _ => .inr ⟨reason, rfl⟩

theorem keepsScope_fail (fault : RunFault) : KeepsScope (fail fault : Run α) :=
  keepsScope_stop (.fault fault)

/-! ## The heap and the output -/

/-- A computation that gives a value and changes the heap or the output alone. -/
theorem keepsScope_of_ok {computation : Run α}
    (h : ∀ state, ∃ value heap output, computation state =
      .ok value { state with heap, output }) : KeepsScope computation := by
  intro state after hleaves
  obtain ⟨value, heap, output, hvalue⟩ := h state
  rw [hleaves.eq_of_ok hvalue]

theorem keepsScope_write (text : String) : KeepsScope (write text) :=
  keepsScope_of_ok fun _ => ⟨_, _, _, rfl⟩

theorem keepsScope_assignField (id : InstanceId) (name : String) (value : Handle) :
    KeepsScope (assignField id name value) :=
  keepsScope_of_ok fun _ => ⟨_, _, _, rfl⟩

theorem keepsScope_make (build : Origin → Object) : KeepsScope (make build) :=
  keepsScope_of_ok fun _ => ⟨_, _, _, rfl⟩

theorem keepsScope_create (cls : ClassId) : KeepsScope (create cls) :=
  keepsScope_of_ok fun _ => ⟨_, _, _, rfl⟩

/-- A field that is missing is bound in the instance, and not in the scope. -/
theorem keepsScope_readField (id : InstanceId) (name : String) :
    KeepsScope (readField id name) := by
  refine keepsScope_of_ok fun state => ?_
  unfold readField
  cases (state.heap.fields id).get? name with
  | some value => exact ⟨_, _, _, rfl⟩
  | none => exact ⟨_, _, _, rfl⟩

theorem keepsScope_follow (value : Handle) (fields : List String) :
    KeepsScope (follow value fields) := by
  induction fields generalizing value with
  | nil => exact .pure value
  | cons field fields ih =>
      rw [follow]
      refine (asks_instanceOf? value).keepsScope.bind fun found => ?_
      cases found with
      | none => exact keepsScope_fail _
      | some id => exact (keepsScope_readField id field).bind ih

theorem keepsScope_lookup (name : String) (fields : List String) :
    KeepsScope (lookup name fields) := by
  intro state after hleaves
  unfold Leaves lookup at hleaves
  cases hvalue : state.scope.get? name with
  | none =>
      rw [hvalue] at hleaves
      exact keepsScope_fail _ state after hleaves
  | some value =>
      rw [hvalue] at hleaves
      exact keepsScope_follow value fields state after hleaves

/-! ## Calls -/

/-- What a computation in a scope of its own leaves, and the scope outside. -/
theorem exists_leaves_of_within {scope : Scope} {inner : Run α}
    (h : Leaves (within scope inner) state after) :
    ∃ last, Leaves inner { state with scope } last ∧
      after = { last with scope := state.scope } := by
  cases hresult : inner { state with scope } with
  | ok value last =>
      have hends : within scope inner state = .ok value { last with scope := state.scope } := by
        rw [within, hresult]
      exact ⟨last, .inl ⟨value, hresult⟩, h.eq_of_ok hends⟩
  | error reason last =>
      have hstops : within scope inner state =
          .error reason { last with scope := state.scope } := by
        rw [within, hresult]
      exact ⟨last, .inr ⟨reason, hresult⟩, h.eq_of_error hstops⟩

/-- A call does nothing at all, or it runs the body of a method in a scope of its own and comes
back to the scope of the caller. -/
theorem call_cases {receiver : InstanceId} {name : String} {values : List Handle}
    (h : Leaves (call classes run receiver name values) state after) :
    after = state ∨ ∃ method inner, methodOf? classes state.heap receiver name = some method ∧
      method.parameters.length = values.length ∧
      Leaves (run method.body)
        { state with scope := frame receiver method.parameters values } inner ∧
      after = { inner with scope := state.scope } := by
  unfold Leaves call at h
  cases hmethod : methodOf? classes state.heap receiver name with
  | none =>
      rw [hmethod] at h
      exact .inl (Leaves.eq_of_error h rfl)
  | some method =>
      rw [hmethod] at h
      dsimp only at h
      split at h
      · rename_i hlength
        obtain ⟨inner, hinner, hafter⟩ := exists_leaves_of_within h
        exact .inr ⟨method, inner, rfl, hlength, hinner, hafter⟩
      · exact .inl (Leaves.eq_of_error h rfl)

/-- Behind a call the scope of the caller is there again, whatever was run. -/
theorem keepsScope_call (classes : Classes) (run : Node → Run Handle) (receiver : InstanceId)
    (name : String) (values : List Handle) :
    KeepsScope (call classes run receiver name values) := by
  intro state after hleaves
  rcases call_cases hleaves with rfl | ⟨method, inner, -, -, -, rfl⟩
  · rfl
  · rfl

theorem keepsScope_display (fuel : Nat) (value : Handle) :
    KeepsScope (display classes run fuel value) := by
  induction fuel generalizing value with
  | zero =>
      rw [display_eq]
      refine (asks_inspect value).keepsScope.bind fun found => ?_
      split
      · exact .pure _
      · refine (asks_canCall _ _ _).keepsScope.bind fun fits => ?_
        split
        · exact keepsScope_stop _
        · exact (asks_displayPlain _).keepsScope
      · exact (asks_displayPlain _).keepsScope
  | succ fuel ih =>
      rw [display_eq]
      refine (asks_inspect value).keepsScope.bind fun found => ?_
      split
      · exact .pure _
      · refine (asks_canCall _ _ _).keepsScope.bind fun fits => ?_
        split
        · exact (keepsScope_call classes run _ _ _).bind ih
        · exact (asks_displayPlain _).keepsScope
      · exact (asks_displayPlain _).keepsScope

/-! ## Comparisons and arithmetic -/

theorem keepsScope_askClass (id : InstanceId) (special : Special) (other : Handle) :
    KeepsScope (askClass classes run id special other) :=
  (keepsScope_call classes run id special.name [other]).bind fun value =>
    (asks_truth value).keepsScope

theorem keepsScope_equal (left right : Handle) : KeepsScope (equal classes run left right) := by
  unfold equal
  refine (asks_inspect left).keepsScope.bind fun first => ?_
  split
  · exact keepsScope_askClass _ .equal right
  · refine (asks_inspect right).keepsScope.bind fun second => ?_
    split <;> first | exact .pure _ | exact (asks_incomparable _ _ _).keepsScope

theorem keepsScope_less (left right : Handle) : KeepsScope (less classes run left right) := by
  unfold less
  refine (asks_inspect left).keepsScope.bind fun first => ?_
  split
  · exact keepsScope_askClass _ .less right
  · refine (asks_inspect right).keepsScope.bind fun second => ?_
    split <;> first | exact .pure _ | exact (asks_incomparable _ _ _).keepsScope

theorem keepsScope_compare (relation : Relation) (left right : Handle) :
    KeepsScope (compare classes run relation left right) := by
  have hequal : KeepsScope (equal classes run left right) := keepsScope_equal left right
  have hless : KeepsScope (less classes run left right) := keepsScope_less left right
  cases relation with
  | equal => exact hequal
  | less => exact hless
  | notEqual => exact hequal.bind fun same => .pure _
  | greaterOrEqual => exact hless.bind fun below => .pure _
  | lessOrEqual =>
      refine hless.bind fun below => ?_
      split
      · exact .pure _
      · exact hequal
  | greater =>
      refine hless.bind fun below => ?_
      split
      · exact .pure _
      · exact hequal.bind fun same => .pure _

theorem keepsScope_add (left right : Handle) : KeepsScope (add classes run left right) := by
  unfold add
  refine (asks_inspect left).keepsScope.bind fun first => ?_
  refine (asks_inspect right).keepsScope.bind fun second => ?_
  split
  · exact keepsScope_make _
  · exact keepsScope_make _
  · refine (asks_canCall _ _ _).keepsScope.bind fun fits => ?_
    split
    · exact keepsScope_call classes run _ _ _
    · exact keepsScope_fail _
  · exact keepsScope_fail _

theorem keepsScope_onNumbers (operator : Arithmetic) (combine : Int → Int → Int)
    (left right : Handle) : KeepsScope (onNumbers operator combine left right) := by
  unfold onNumbers
  refine (asks_number? left).keepsScope.bind fun first => ?_
  refine (asks_number? right).keepsScope.bind fun second => ?_
  split
  · exact keepsScope_make _
  · exact keepsScope_fail _

theorem keepsScope_divide (left right : Handle) : KeepsScope (divide left right) := by
  unfold divide
  refine (asks_number? right).keepsScope.bind fun divisor => ?_
  split
  · exact keepsScope_fail _
  · split
    · exact keepsScope_fail _
    · refine (asks_number? left).keepsScope.bind fun dividend => ?_
      split
      · exact keepsScope_fail _
      · exact keepsScope_make _

theorem keepsScope_calculate (operator : Arithmetic) (left right : Handle) :
    KeepsScope (calculate classes run operator left right) := by
  cases operator with
  | add => exact keepsScope_add left right
  | subtract => exact keepsScope_onNumbers .subtract _ left right
  | multiply => exact keepsScope_onNumbers .multiply _ left right
  | divide => exact keepsScope_divide left right

/-! ## What runs its parts -/

theorem keepsScope_runAll {nodes : List Node} (h : ∀ node ∈ nodes, KeepsScope (run node)) :
    KeepsScope (runAll run nodes) := by
  induction nodes with
  | nil => exact .pure _
  | cons node nodes ih =>
      obtain ⟨hnode, hothers⟩ := List.forall_mem_cons.mp h
      exact hnode.bind fun value => (ih hothers).bind fun values => .pure _

theorem keepsScope_printMore (fuel : Nat) {nodes : List Node}
    (h : ∀ node ∈ nodes, KeepsScope (run node)) :
    KeepsScope (printMore classes run fuel nodes) := by
  induction nodes with
  | nil => exact .pure _
  | cons node nodes ih =>
      obtain ⟨hnode, hothers⟩ := List.forall_mem_cons.mp h
      rw [printMore_cons]
      refine (keepsScope_write " ").bind fun _ => hnode.bind fun value => ?_
      refine (keepsScope_display fuel value).bind fun text => ?_
      exact (keepsScope_write text).bind fun _ => ih hothers

theorem keepsScope_printLine (fuel : Nat) {nodes : List Node}
    (h : ∀ node ∈ nodes, KeepsScope (run node)) :
    KeepsScope (printLine classes run fuel nodes) := by
  cases nodes with
  | nil => exact keepsScope_write "\n"
  | cons node nodes =>
      obtain ⟨hnode, hothers⟩ := List.forall_mem_cons.mp h
      rw [printLine_cons]
      refine hnode.bind fun value => (keepsScope_display fuel value).bind fun text => ?_
      refine (keepsScope_write text).bind fun _ => ?_
      exact (keepsScope_printMore fuel hothers).bind fun _ => keepsScope_write "\n"

theorem keepsScope_callMethod {receiver : Node} (name : String) {arguments : List Node}
    (hreceiver : KeepsScope (run receiver))
    (harguments : ∀ argument ∈ arguments, KeepsScope (run argument)) :
    KeepsScope (callMethod classes run receiver name arguments) := by
  unfold callMethod
  refine hreceiver.bind fun value => (asks_instanceOf? value).keepsScope.bind fun target => ?_
  split
  · exact .pure _
  · refine (asks_canCall _ _ _).keepsScope.bind fun fits => ?_
    split
    · exact (keepsScope_runAll harguments).bind fun values => keepsScope_call classes run _ _ _
    · exact .pure _

theorem keepsScope_construct (cls : ClassId) {arguments : List Node}
    (harguments : ∀ argument ∈ arguments, KeepsScope (run argument)) :
    KeepsScope (construct classes run cls arguments) := by
  unfold construct
  refine (keepsScope_create cls).bind fun id => ?_
  refine (asks_canCall _ _ _).keepsScope.bind fun fits => ?_
  split
  · refine (keepsScope_runAll harguments).bind fun values => ?_
    exact (keepsScope_call classes run _ _ _).bind fun _ => .pure _
  · exact .pure _

theorem keepsScope_setField {object value : Node} (field : String)
    (hobject : KeepsScope (run object)) (hvalue : KeepsScope (run value)) :
    KeepsScope (setField run object field value) := by
  unfold setField
  refine hobject.bind fun target => (asks_instanceOf? target).keepsScope.bind fun found => ?_
  split
  · exact keepsScope_fail _
  · exact hvalue.bind fun handle => (keepsScope_assignField _ field handle).bind fun _ => .pure _

/-- A condition is asked whether it counts as true. -/
theorem keepsScope_condition {condition : Node} (hcondition : KeepsScope (run condition)) :
    KeepsScope (do truth (← run condition)) :=
  hcondition.bind fun value => (asks_truth value).keepsScope

end Run

open Run

/-! ## Expressions -/

/-- An expression leaves the scope as it is, however it ends and whatever it calls. -/
theorem Node.IsExpression.keepsScope {makes : ClassId → Prop} {node : Node}
    (h : node.IsExpression makes) (classes : Classes) (fuel : Nat) :
    KeepsScope (execute classes fuel node) := by
  -- only the parts of the expression need the induction: a call keeps the scope in any case
  induction fuel generalizing node with
  | zero => exact keepsScope_stop _
  | succ fuel ih =>
      have hall {nodes : List Node} (hnodes : Node.AreExpressions makes nodes) :
          ∀ node ∈ nodes, KeepsScope (execute classes fuel node) :=
        fun node hmem => ih (Node.areExpressions_iff.mp hnodes node hmem)
      cases node with
      | number | text | flag | absent => exact .pure _
      | «variable» name fields => exact keepsScope_lookup name fields
      | arithmetic operator left right =>
          exact (ih h.1).bind fun first => (ih h.2).bind fun second =>
            keepsScope_calculate operator first second
      | connective word left right =>
          have hflag (value : Bool) : KeepsScope (makeFlag value) := keepsScope_make _
          have hright : KeepsScope (do makeFlag (← truth (← execute classes fuel right))) :=
            (ih h.2).bind fun second => (asks_truth second).keepsScope.bind hflag
          cases word with
          | or =>
              refine (ih h.1).bind fun first => (asks_truth first).keepsScope.bind fun answer => ?_
              split
              · exact hflag true
              · exact hright
          | and =>
              refine (ih h.1).bind fun first => (asks_truth first).keepsScope.bind fun answer => ?_
              split
              · exact hright
              · exact hflag false
      | negation operand =>
          have hoperand : operand.IsExpression makes := h
          exact (ih hoperand).bind fun value => (asks_truth value).keepsScope.bind fun answer =>
            keepsScope_make _
      | comparison relation left right =>
          refine (ih h.1).bind fun first => (ih h.2).bind fun second => ?_
          exact (keepsScope_compare relation first second).bind fun answer => keepsScope_make _
      | stringify operand =>
          have hoperand : operand.IsExpression makes := h
          refine (ih hoperand).bind fun value => (keepsScope_display fuel value).bind fun text => ?_
          exact keepsScope_make _
      | call receiver name arguments =>
          exact keepsScope_callMethod name (ih h.2.1) (hall h.2.2)
      | create cls arguments => exact keepsScope_construct cls (hall h.2)
      | _ => exact False.elim h

/-- Binding a field leaves the scope as it is. -/
theorem Node.IsExpression.keepsScope_assignField {makes : ClassId → Prop} {object value : Node}
    (hobject : object.IsExpression makes) (hvalue : value.IsExpression makes) (field : String)
    (classes : Classes) (fuel : Nat) :
    KeepsScope (execute classes fuel (.assignField object field value)) := by
  cases fuel with
  | zero => exact keepsScope_stop _
  | succ fuel =>
      exact keepsScope_setField field (hobject.keepsScope classes fuel)
        (hvalue.keepsScope classes fuel)

end Offside
