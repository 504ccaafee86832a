import Offside.Proofs.Execution.Safety
import Offside.Proofs.Execution.Streams

/-!
# Running a statement is safe

Every computation of the language is safe if the running of nodes that it is given obeys
(`Obeys`), and what runs nodes with one unit of fuel more then obeys too
(`execute_obeys`).

Two things carry the proof.  The body of a method takes in what its block returns, so
that a call gives a valid value (`safe_call`); and whatever is asked for a value is an
expression, which never returns (`Obeys.expression`).
-/

namespace Offside.Run

variable {classes : Classes} {run : Node → Run Handle} {state : State}

/-- Running a statement in a sound state is safe. -/
def Obeys (classes : Classes) (run : Node → Run Handle) : Prop :=
  ∀ {node : Node} {inMethod : Bool} {state : State}, node.IsStatement classes.count inMethod →
    state.IsSound classes → Safe classes (run node) (Outcome classes inMethod) state

/-- Running what never returns gives a valid value. -/
theorem Obeys.outside (hrun : Obeys classes run) {node : Node}
    (hnode : node.IsStatement classes.count false) (hstate : state.IsSound classes) :
    Safe classes (run node) (valid classes) state := by
  apply (hrun hnode hstate).weaken
  intro value heap houtcome
  rcases houtcome with hvalid | ⟨hfalse, -⟩
  · exact hvalid
  · cases hfalse

/-- Running an expression gives a valid value. -/
theorem Obeys.expression (hrun : Obeys classes run) {node : Node}
    (hnode : node.IsExpression (· < classes.count)) (hstate : state.IsSound classes) :
    Safe classes (run node) (valid classes) state :=
  hrun.outside (hnode.isStatement false) hstate

/-! ## Calls -/

theorem safe_within {α : Type} {scope : Scope} {inner : Run α} {good : α → Heap → Prop}
    (hstate : state.IsSound classes) (h : Safe classes inner good { state with scope }) :
    Safe classes (within scope inner) good state := by
  unfold Safe within
  unfold Safe at h
  cases hresult : inner { state with scope } with
  | ok value after =>
      rw [hresult] at h
      obtain ⟨hsize, hafter, hgood⟩ := h
      exact ⟨hsize, ⟨hafter.heap, hstate.scope.mono (Nat.le_refl _) hsize⟩, hgood⟩
  | error reason after =>
      rw [hresult] at h
      obtain ⟨hsize, hafter, hreason⟩ := h
      exact ⟨hsize, ⟨hafter.heap, hstate.scope.mono (Nat.le_refl _) hsize⟩, hreason⟩

/-- The scope in which a method starts is valid. -/
theorem isValid_frame {heap : Heap} {receiver : InstanceId} {values : List Handle}
    (parameters : List String) (hreceiver : receiver < heap.instances.size)
    (hvalues : allValid classes values heap) :
    Scope.IsValid classes heap (frame receiver parameters values) := by
  have hself : (Handle.share (.ofInstance receiver)).IsValid classes heap := hreceiver
  apply (Scope.isValid_empty.set Heap.selfName hself).setAll
  intro pair hpair
  exact hvalues pair.2 (List.of_mem_zip hpair).2

theorem safe_canCall (id : InstanceId) (name : String) (arity : Nat)
    (hstate : state.IsSound classes) :
    Safe classes (canCall classes id name arity) anything state :=
  ⟨Nat.le_refl _, hstate, trivial⟩

section

variable (hclasses : classes.IsSound) (hrun : Obeys classes run)
include hclasses hrun

/-- A call gives a valid value: the body of a method takes in what is on its way out. -/
theorem safe_call {receiver : InstanceId} (name : String) {values : List Handle}
    (hstate : state.IsSound classes) (hreceiver : receiver < state.heap.instances.size)
    (hvalues : allValid classes values state.heap) :
    Safe classes (call classes run receiver name values) (valid classes) state := by
  unfold Safe call
  cases hmethod : methodOf? classes state.heap receiver name with
  | none => exact ⟨Nat.le_refl _, hstate, nofun⟩
  | some method =>
      show Ends classes state (valid classes)
        (if method.parameters.length = values.length then
          within (frame receiver method.parameters values) (run method.body) state
        else fail (.missingMethod (state.heap.className classes receiver) name values.length)
          state)
      -- a call of another arity fails before anything runs
      by_cases harity : method.parameters.length = values.length
      · rw [if_pos harity]
        -- the method comes from the class table, so it takes in what it returns
        obtain ⟨cls, -, hresolve⟩ := Option.bind_eq_some_iff.mp hmethod
        have hbody := (hclasses.resolve hresolve).body_isStatement
        apply safe_within hstate
        exact hrun.outside hbody ⟨hstate.heap, isValid_frame method.parameters hreceiver hvalues⟩
      · rw [if_neg harity]
        exact ⟨Nat.le_refl _, hstate, nofun⟩

omit hclasses in
theorem safe_runAll {nodes : List Node} (hnodes : Node.AreExpressions (· < classes.count) nodes)
    (hstate : state.IsSound classes) :
    Safe classes (runAll run nodes) (allValid classes) state := by
  induction nodes generalizing state with
  | nil => exact .pure hstate (allValid_nil state.heap)
  | cons node nodes ih =>
      rw [runAll]
      apply (hrun.expression hnodes.1 hstate).bind
      intro value after _ hafter hvalue
      apply (ih hnodes.2 hafter).bind
      intro values last hsize hlast hvalues
      exact .pure hlast (allValid_cons (hvalue.mono (Nat.le_refl _) hsize) hvalues)

/-! ## Texts -/

omit hclasses hrun in
theorem safe_displayPlain (object : Object) (hstate : state.IsSound classes) :
    Safe classes (displayPlain classes object) anything state := by
  cases object with
  | number origin value =>
      rw [displayPlain]
      generalize hwrite : Decimal.write? value = digits
      cases digits with
      | some digits => exact .pure hstate trivial
      | none => exact safe_stop hstate hwrite
  | text | flag | ofClass => exact .pure hstate trivial
  | ofInstance id => exact ⟨Nat.le_refl _, hstate, trivial⟩

theorem safe_display (fuel : Nat) {value : Handle} (hstate : state.IsSound classes)
    (hvalue : value.IsValid classes state.heap) :
    Safe classes (display classes run fuel value) anything state := by
  -- the fuel bounds how often a text is asked of another instance
  induction fuel generalizing value state with
  | zero =>
      rw [display_eq, inspect_eq hvalue, pure_bind]
      split
      · exact .pure hstate trivial
      · apply (safe_canCall _ _ _ hstate).bind
        intro fits after _ hafter _
        split
        · exact safe_stop hafter trivial
        · exact safe_displayPlain _ hafter
      · exact safe_displayPlain _ hstate
  | succ fuel ih =>
      rw [display_eq, inspect_eq hvalue, pure_bind]
      split
      · exact .pure hstate trivial
      · next id hid =>
          have hreceiver := lt_size_of_object? hvalue hid
          apply (safe_canCall _ _ _ hstate).bind
          intro fits after hsize hafter _
          split
          · apply (safe_call hclasses hrun _ hafter (Nat.lt_of_lt_of_le hreceiver hsize)
              (allValid_nil after.heap)).bind
            intro text last _ hlast htext
            exact ih hlast htext
          · exact safe_displayPlain _ hafter
      · exact safe_displayPlain _ hstate

/-! ## Comparisons -/

omit hclasses hrun in
theorem describe_error {heap : Heap} {object : Option Object} {value : Int}
    (h : Object.describeAny classes heap object = .error value) :
    Decimal.write? value = none := by
  cases object with
  | none => cases h
  | some object =>
      cases object with
      | number origin number =>
          simp only [Object.describeAny, Object.describe] at h
          generalize hwrite : Decimal.write? number = digits at h
          cases digits with
          | some digits => cases h
          | none =>
              cases h
              exact hwrite
      | text | flag | ofClass | ofInstance => cases h

omit hclasses hrun in
theorem safe_incomparable {α : Type} {good : α → Heap → Prop} (question : Question)
    (left right : Option Object) (hstate : state.IsSound classes) :
    Safe classes (incomparable classes question left right) good state := by
  unfold Safe incomparable
  split
  · next value hleft => exact ⟨Nat.le_refl _, hstate, describe_error hleft⟩
  · next value hright _ => exact ⟨Nat.le_refl _, hstate, describe_error hright⟩
  · exact ⟨Nat.le_refl _, hstate, nofun⟩

theorem safe_askClass {id : InstanceId} (special : Special) {other : Handle}
    (hstate : state.IsSound classes) (hid : id < state.heap.instances.size)
    (hother : other.IsValid classes state.heap) :
    Safe classes (askClass classes run id special other) anything state := by
  unfold askClass
  have hvalues : allValid classes [other] state.heap :=
    allValid_cons hother (allValid_nil state.heap)
  apply (safe_call hclasses hrun special.name hstate hid hvalues).bind
  intro value after _ hafter hvalue
  rw [truth_eq hvalue]
  exact .pure hafter trivial

theorem safe_equal {left right : Handle} (hstate : state.IsSound classes)
    (hleft : left.IsValid classes state.heap) (hright : right.IsValid classes state.heap) :
    Safe classes (equal classes run left right) anything state := by
  unfold equal
  rw [inspect_eq hleft, pure_bind]
  split
  · next id hid =>
      exact safe_askClass hclasses hrun .equal hstate (lt_size_of_object? hleft hid) hright
  · rw [inspect_eq hright, pure_bind]
    split <;> first | exact .pure hstate trivial | exact safe_incomparable _ _ _ hstate

theorem safe_less {left right : Handle} (hstate : state.IsSound classes)
    (hleft : left.IsValid classes state.heap) (hright : right.IsValid classes state.heap) :
    Safe classes (less classes run left right) anything state := by
  unfold less
  rw [inspect_eq hleft, pure_bind]
  split
  · next id hid =>
      exact safe_askClass hclasses hrun .less hstate (lt_size_of_object? hleft hid) hright
  · rw [inspect_eq hright, pure_bind]
    split <;> first | exact .pure hstate trivial | exact safe_incomparable _ _ _ hstate

/-- All comparisons ask for one of two relations first, and perhaps for equality then. -/
theorem safe_compare (relation : Relation) {left right : Handle} (hstate : state.IsSound classes)
    (hleft : left.IsValid classes state.heap) (hright : right.IsValid classes state.heap) :
    Safe classes (compare classes run relation left right) anything state := by
  have hequal {after : State} (hsize : state.heap.instances.size ≤ after.heap.instances.size)
      (hafter : after.IsSound classes) :
      Safe classes (equal classes run left right) anything after :=
    safe_equal hclasses hrun hafter (hleft.mono (Nat.le_refl _) hsize)
      (hright.mono (Nat.le_refl _) hsize)
  have hless := safe_less hclasses hrun hstate hleft hright
  cases relation with
  | equal => exact hequal (Nat.le_refl _) hstate
  | less => exact hless
  | notEqual =>
      apply (hequal (Nat.le_refl _) hstate).bind
      intro answer after _ hafter _
      exact .pure hafter trivial
  | greaterOrEqual =>
      apply hless.bind
      intro answer after _ hafter _
      exact .pure hafter trivial
  | lessOrEqual =>
      apply hless.bind
      intro answer after hsize hafter _
      cases answer with
      | true => exact .pure hafter trivial
      | false => exact hequal hsize hafter
  | greater =>
      apply hless.bind
      intro answer after hsize hafter _
      cases answer with
      | true => exact .pure hafter trivial
      | false =>
          apply (hequal hsize hafter).bind
          intro same last _ hlast _
          exact .pure hlast trivial

/-! ## Arithmetic -/

omit hclasses hrun in
theorem number?_eq {value : Handle} {heap : Heap} (h : value.IsValid classes heap) :
    ∃ found, number? value = Pure.pure found := by
  unfold number?
  rw [inspect_eq h, pure_bind]
  split
  · exact ⟨_, rfl⟩
  · exact ⟨_, rfl⟩

theorem safe_add {left right : Handle} (hstate : state.IsSound classes)
    (hleft : left.IsValid classes state.heap) (hright : right.IsValid classes state.heap) :
    Safe classes (add classes run left right) (valid classes) state := by
  unfold add
  rw [inspect_eq hleft, pure_bind, inspect_eq hright, pure_bind]
  split
  · exact safe_makeNumber _ hstate
  · exact safe_makeText _ hstate
  · next id hid =>
      apply (safe_canCall _ _ _ hstate).bind
      intro fits after hsize hafter _
      split
      · have hvalue := hright.mono (Nat.le_refl _) hsize
        exact safe_call hclasses hrun _ hafter
          (Nat.lt_of_lt_of_le (lt_size_of_object? hleft hid) hsize)
          (allValid_cons hvalue (allValid_nil after.heap))
      · exact safe_fail hafter nofun
  · exact safe_fail hstate nofun

omit hclasses hrun in
theorem safe_onNumbers (operator : Arithmetic) (combine : Int → Int → Int) {left right : Handle}
    (hstate : state.IsSound classes) (hleft : left.IsValid classes state.heap)
    (hright : right.IsValid classes state.heap) :
    Safe classes (onNumbers operator combine left right) (valid classes) state := by
  obtain ⟨first, hfirst⟩ := number?_eq hleft
  obtain ⟨second, hsecond⟩ := number?_eq hright
  unfold onNumbers
  rw [hfirst, pure_bind, hsecond, pure_bind]
  split
  · exact safe_makeNumber _ hstate
  · exact safe_fail hstate nofun

omit hclasses hrun in
theorem safe_divide {left right : Handle} (hstate : state.IsSound classes)
    (hleft : left.IsValid classes state.heap) (hright : right.IsValid classes state.heap) :
    Safe classes (divide left right) (valid classes) state := by
  obtain ⟨dividend, hdividend⟩ := number?_eq hleft
  obtain ⟨divisor, hdivisor⟩ := number?_eq hright
  unfold divide
  rw [hdivisor, pure_bind]
  cases divisor with
  | none => exact safe_fail hstate nofun
  | some divisor =>
      by_cases hzero : divisor = 0
      · simp only [if_pos hzero]
        exact safe_fail hstate nofun
      · simp only [if_neg hzero]
        rw [hdividend, pure_bind]
        cases dividend with
        | none => exact safe_fail hstate nofun
        | some dividend => exact safe_makeNumber _ hstate

theorem safe_calculate (operator : Arithmetic) {left right : Handle}
    (hstate : state.IsSound classes) (hleft : left.IsValid classes state.heap)
    (hright : right.IsValid classes state.heap) :
    Safe classes (calculate classes run operator left right) (valid classes) state := by
  cases operator with
  | add => exact safe_add hclasses hrun hstate hleft hright
  | subtract => exact safe_onNumbers .subtract _ hstate hleft hright
  | multiply => exact safe_onNumbers .multiply _ hstate hleft hright
  | divide => exact safe_divide hstate hleft hright

/-! ## Statements -/

theorem safe_printMore (fuel : Nat) {nodes : List Node}
    (hnodes : Node.AreExpressions (· < classes.count) nodes) (hstate : state.IsSound classes) :
    Safe classes (printMore classes run fuel nodes) anything state := by
  induction nodes generalizing state with
  | nil => exact .pure hstate trivial
  | cons node nodes ih =>
      rw [printMore_cons]
      apply (safe_write " " hstate).bind
      intro _ spaced _ hspaced _
      apply (hrun.expression hnodes.1 hspaced).bind
      intro value found _ hfound hvalue
      apply (safe_display hclasses hrun fuel hfound hvalue).bind
      intro text shown _ hshown _
      apply (safe_write text hshown).bind
      intro _ after _ hafter _
      exact ih hnodes.2 hafter

theorem safe_printLine (fuel : Nat) {nodes : List Node}
    (hnodes : Node.AreExpressions (· < classes.count) nodes) (hstate : state.IsSound classes) :
    Safe classes (printLine classes run fuel nodes) anything state := by
  cases nodes with
  | nil => exact safe_write "\n" hstate
  | cons node nodes =>
      rw [printLine_cons]
      apply (hrun.expression hnodes.1 hstate).bind
      intro value found _ hfound hvalue
      apply (safe_display hclasses hrun fuel hfound hvalue).bind
      intro text shown _ hshown _
      apply (safe_write text hshown).bind
      intro _ after _ hafter _
      apply (safe_printMore hclasses hrun fuel hnodes.2 hafter).bind
      intro _ last _ hlast _
      exact safe_write "\n" hlast

omit hclasses in
/-- A block passes on what is on its way out, and no other value. -/
theorem safe_sequence {nodes : List Node} {inMethod : Bool}
    (hnodes : Node.AreStatements classes.count nodes inMethod) (hstate : state.IsSound classes) :
    Safe classes (sequence run nodes) (Outcome classes inMethod) state := by
  induction nodes generalizing state with
  | nil => exact .pure hstate (.inl trivial)
  | cons node nodes ih =>
      rw [sequence]
      apply (hrun hnodes.1 hstate).bind
      intro value after _ hafter houtcome
      -- a valid value lets the block go on, one on its way out ends it
      rcases houtcome with hvalid | ⟨hmethod, inner, rfl, hinner⟩
      · rcases isValid_cases hvalid with rfl | ⟨object, owning, rfl⟩
        · exact ih hnodes.2 hafter
        · exact ih hnodes.2 hafter
      · exact .pure hafter (.inr ⟨hmethod, inner, rfl, hinner⟩)

omit hclasses in
/-- The body of a method takes in what its block returns. -/
theorem safe_finish {block : Node} {inMethod : Bool}
    (hblock : block.IsStatement classes.count inMethod) (hstate : state.IsSound classes) :
    Safe classes (finish run block) (valid classes) state := by
  unfold finish
  apply (hrun hblock hstate).bind
  intro value after _ hafter houtcome
  rcases houtcome with hvalid | ⟨-, inner, rfl, hinner⟩
  · rcases isValid_cases hvalid with rfl | ⟨object, owning, rfl⟩
    · exact .pure hafter trivial
    · exact .pure hafter trivial
  · exact .pure hafter hinner

theorem safe_callMethod {receiver : Node} (name : String) {arguments : List Node}
    (hreceiver : receiver.IsExpression (· < classes.count))
    (harguments : Node.AreExpressions (· < classes.count) arguments)
    (hstate : state.IsSound classes) :
    Safe classes (callMethod classes run receiver name arguments) (valid classes) state := by
  unfold callMethod
  apply (hrun.expression hreceiver hstate).bind
  intro value found _ hfound hvalue
  rw [instanceOf?_eq hvalue, pure_bind]
  split
  · exact .pure hfound trivial
  · next id hid =>
      have hid := lt_size_of_instance? hvalue hid
      apply (safe_canCall _ _ _ hfound).bind
      intro fits asked hsize hasked _
      split
      · apply (safe_runAll hrun harguments hasked).bind
        intro values after hsize' hafter hvalues
        exact safe_call hclasses hrun name hafter
          (Nat.lt_of_lt_of_le hid (Nat.le_trans hsize hsize')) hvalues
      · exact .pure hasked trivial

theorem safe_construct {cls : ClassId} {arguments : List Node} (hcls : cls < classes.count)
    (harguments : Node.AreExpressions (· < classes.count) arguments)
    (hstate : state.IsSound classes) :
    Safe classes (construct classes run cls arguments) (valid classes) state := by
  unfold construct
  apply (safe_create hstate hcls).bind
  intro id made _ hmade hid
  apply (safe_canCall _ _ _ hmade).bind
  intro fits asked hsize hasked _
  have hid := Nat.lt_of_lt_of_le hid hsize
  split
  · apply (safe_runAll hrun harguments hasked).bind
    intro values ready hsize' hready hvalues
    -- neither the arguments nor the call remove the instance that was made
    have hid := Nat.lt_of_lt_of_le hid hsize'
    apply (safe_call hclasses hrun _ hready hid hvalues).bind
    intro _ after hsize'' hafter _
    exact .pure hafter (Nat.lt_of_lt_of_le hid hsize'')
  · exact .pure hasked hid

omit hclasses in
theorem safe_setField {object value : Node} (field : String)
    (hobject : object.IsExpression (· < classes.count))
    (hvalue : value.IsExpression (· < classes.count)) (hstate : state.IsSound classes) :
    Safe classes (setField run object field value) (valid classes) state := by
  unfold setField
  apply (hrun.expression hobject hstate).bind
  intro target found _ hfound htarget
  rw [instanceOf?_eq htarget, pure_bind]
  split
  · exact safe_fail hfound nofun
  · next id _ =>
      apply (hrun.expression hvalue hfound).bind
      intro handle ready _ hready hhandle
      apply (safe_assignField id field hready hhandle).bind
      intro _ after hsize hafter _
      exact .pure hafter (hhandle.mono (Nat.le_refl _) hsize)

omit hclasses in
/-- A condition is asked whether it counts as true. -/
theorem safe_condition {α : Type} {good : α → Heap → Prop} {condition : Node}
    {next : Bool → Run α} (hcondition : condition.IsExpression (· < classes.count))
    (hstate : state.IsSound classes)
    (hnext : ∀ answer after, state.heap.instances.size ≤ after.heap.instances.size →
      after.IsSound classes → Safe classes (next answer) good after) :
    Safe classes (do next (← truth (← run condition))) good state := by
  apply (hrun.expression hcondition hstate).bind
  intro value after hsize hafter hvalue
  rw [truth_eq hvalue, pure_bind]
  exact hnext _ after hsize hafter

omit hclasses in
/-- What is made of the answer to a condition is a flag. -/
theorem safe_answer (change : Bool → Bool) {condition : Node}
    (hcondition : condition.IsExpression (· < classes.count)) (hstate : state.IsSound classes) :
    Safe classes (do makeFlag (change (← truth (← run condition)))) (valid classes) state := by
  apply safe_condition hrun hcondition hstate
  intro answer after _ hafter
  exact safe_makeFlag _ hafter

end

/-! ## Nodes -/

/-- Every amount of fuel runs statements safely. -/
theorem execute_obeys (hclasses : classes.IsSound) (fuel : Nat) :
    Obeys classes (execute classes fuel) := by
  induction fuel with
  | zero =>
      intro node inMethod state hnode hstate
      exact safe_stop hstate trivial
  | succ fuel ih =>
      intro node inMethod state hnode hstate
      -- only `giveBack` makes use of the other kind of outcome, and blocks pass it on
      have hvalid {value : Handle} {heap : Heap} (h : value.IsValid classes heap) :
          Outcome classes inMethod value heap := .inl h
      cases node with
      | number | text | flag | absent => exact .pure hstate (hvalid trivial)
      | «variable» name fields =>
          exact (safe_lookup name fields hstate).weaken fun _ _ => hvalid
      | arithmetic operator left right =>
          apply (ih.expression hnode.1 hstate).bind
          intro first between _ hbetween hfirst
          apply (ih.expression hnode.2 hbetween).bind
          intro second after hsize hafter hsecond
          exact (safe_calculate hclasses ih operator hafter
            (hfirst.mono (Nat.le_refl _) hsize) hsecond).weaken fun _ _ => hvalid
      | connective word left right =>
          cases word with
          | or =>
              apply safe_condition ih hnode.1 hstate
              intro answer between _ hbetween
              cases answer with
              | true => exact (safe_makeFlag _ hbetween).weaken fun _ _ => hvalid
              | false => exact (safe_answer ih id hnode.2 hbetween).weaken fun _ _ => hvalid
          | and =>
              apply safe_condition ih hnode.1 hstate
              intro answer between _ hbetween
              cases answer with
              | false => exact (safe_makeFlag _ hbetween).weaken fun _ _ => hvalid
              | true => exact (safe_answer ih id hnode.2 hbetween).weaken fun _ _ => hvalid
      | negation operand =>
          have hoperand : operand.IsExpression (· < classes.count) := hnode
          exact (safe_answer ih not hoperand hstate).weaken fun _ _ => hvalid
      | comparison relation left right =>
          apply (ih.expression hnode.1 hstate).bind
          intro first between _ hbetween hfirst
          apply (ih.expression hnode.2 hbetween).bind
          intro second after hsize hafter hsecond
          apply (safe_compare hclasses ih relation hafter
            (hfirst.mono (Nat.le_refl _) hsize) hsecond).bind
          intro answer last _ hlast _
          exact (safe_makeFlag _ hlast).weaken fun _ _ => hvalid
      | stringify operand =>
          have hoperand : operand.IsExpression (· < classes.count) := hnode
          apply (ih.expression hoperand hstate).bind
          intro value found _ hfound hvalue
          apply (safe_display hclasses ih fuel hfound hvalue).bind
          intro text after _ hafter _
          exact (safe_makeText _ hafter).weaken fun _ _ => hvalid
      | call receiver name arguments =>
          exact (safe_callMethod hclasses ih name hnode.2.1 hnode.2.2 hstate).weaken
            fun _ _ => hvalid
      | create cls arguments =>
          exact (safe_construct hclasses ih hnode.1 hnode.2 hstate).weaken fun _ _ => hvalid
      | assign name value =>
          have hvalue : value.IsExpression (· < classes.count) := hnode
          apply (ih.expression hvalue hstate).bind
          intro handle ready _ hready hhandle
          apply (safe_assign name hready hhandle).bind
          intro _ after hsize hafter _
          exact .pure hafter (hvalid (hhandle.mono (Nat.le_refl _) hsize))
      | assignField object field value =>
          exact (safe_setField ih field hnode.1 hnode.2 hstate).weaken fun _ _ => hvalid
      | print arguments =>
          apply (safe_printLine hclasses ih fuel hnode hstate).bind
          intro _ after _ hafter _
          exact .pure hafter (hvalid trivial)
      | block statements => exact safe_sequence ih hnode hstate
      | giveBack value =>
          apply (ih.expression hnode.2 hstate).bind
          intro handle after _ hafter hhandle
          exact .pure hafter (.inr ⟨hnode.1, handle, rfl, hhandle⟩)
      | body block =>
          have hblock : block.IsStatement classes.count true := hnode
          exact (safe_finish ih hblock hstate).weaken fun _ _ => hvalid
      | ifThen condition consequent =>
          apply safe_condition ih hnode.1 hstate
          intro answer after _ hafter
          cases answer with
          | true => exact ih hnode.2 hafter
          | false => exact .pure hafter (hvalid trivial)
      | ifThenElse condition consequent alternative =>
          apply safe_condition ih hnode.1 hstate
          intro answer after _ hafter
          cases answer with
          | true => exact ih hnode.2.1 hafter
          | false => exact ih hnode.2.2 hafter
      | classDefinition cls =>
          have hcls : (Handle.own (.ofClass cls)).IsValid classes state.heap := hnode
          apply (safe_assign (classes.nameOf cls) hstate hcls).bind
          intro _ after _ hafter _
          exact .pure hafter (hvalid trivial)

/-- Running a program is safe. -/
theorem safe_executeProgram (hclasses : classes.IsSound) (fuel : Nat) {program : Node}
    (hprogram : program.IsStatement classes.count false) (hstate : state.IsSound classes) :
    Safe classes (executeProgram classes fuel program) (valid classes) state := by
  unfold executeProgram
  apply (Obeys.outside (execute_obeys hclasses fuel) hprogram hstate).bind
  intro value after _ hafter hvalue
  rcases isValid_cases hvalue with rfl | ⟨object, owning, rfl⟩
  · exact .pure hafter trivial
  · exact .pure hafter hvalue

end Offside.Run
