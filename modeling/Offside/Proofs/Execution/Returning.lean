import Offside.Proofs.Execution.Soundness

/-!
# Where a value on its way out comes from

If running a statement gives a value on its way out, then that statement returns itself,
or it is a block or a conditional that passes the value on from a statement in it.
`Node.Forwards` is the chain of blocks and conditionals between the two, and
`exists_forwards_of_execute` finds the statement that returns at its end.
-/

namespace Offside

/-- Blocks and conditionals lead from one node down to another. -/
inductive Node.Forwards (origin : Node) : Node → Prop
  | here : Forwards origin origin
  | block {statement : Node} {statements : List Node} (hmem : statement ∈ statements)
      (h : Forwards origin statement) : Forwards origin (.block statements)
  | ifThen {condition consequent : Node} (h : Forwards origin consequent) :
      Forwards origin (.ifThen condition consequent)
  | ifThenElse {condition consequent alternative branch : Node}
      (hbranch : branch = consequent ∨ branch = alternative) (h : Forwards origin branch) :
      Forwards origin (.ifThenElse condition consequent alternative)

namespace Run

variable {classes : Classes} {α β : Type} {state after : State}

/-- Computations in sequence give a value if each of them does. -/
theorem bind_eq_ok_iff {first : Run α} {next : α → Run β} {value : β} :
    (first >>= next) state = .ok value after ↔
      ∃ middle between, first state = .ok middle between ∧
        next middle between = .ok value after := by
  show EStateM.bind first next state = .ok value after ↔ _
  unfold EStateM.bind
  cases hfirst : first state with
  | ok middle between =>
      constructor
      · intro h
        exact ⟨middle, between, rfl, h⟩
      · intro h
        obtain ⟨_, _, hmiddle, hnext⟩ := h
        cases hmiddle
        exact hnext
  | error reason between =>
      constructor
      · intro h
        cases h
      · intro h
        obtain ⟨_, _, hmiddle, -⟩ := h
        cases hmiddle

/-- A block that gives a value on its way out has a statement that gives it. -/
theorem exists_of_sequence {run : Node → Run Handle} (hrun : Obeys classes run)
    {nodes : List Node} {inMethod : Bool} {value : Handle}
    (hnodes : Node.AreStatements classes.count nodes inMethod) (hstate : state.IsSound classes)
    (h : sequence run nodes state = .ok (.returned value) after) :
    ∃ node ∈ nodes, ∃ before, before.IsSound classes ∧
      run node before = .ok (.returned value) after := by
  induction nodes generalizing state with
  | nil => cases h
  | cons node nodes ih =>
      obtain ⟨first, between, hfirst, hrest⟩ := bind_eq_ok_iff.mp h
      have hbetween := ((hrun hnodes.1 hstate).of_ok hfirst).1
      -- any other value of the first statement leaves it to the later ones
      have hlater (hnext : sequence run nodes between = .ok (.returned value) after) :
          ∃ found ∈ node :: nodes, ∃ before, before.IsSound classes ∧
            run found before = .ok (.returned value) after := by
        obtain ⟨found, hmem, before, hbefore, hfound⟩ := ih hnodes.2 hbetween hnext
        exact ⟨found, List.mem_cons_of_mem _ hmem, before, hbefore, hfound⟩
      cases first with
      | returned inner =>
          cases hrest
          exact ⟨node, List.mem_cons_self, state, hstate, hfirst⟩
      | empty => exact hlater hrest
      | holding object owning => exact hlater hrest

/-- Behind a condition one of two branches runs. -/
theorem exists_of_condition {run : Node → Run Handle} (hrun : Obeys classes run)
    {condition : Node} {next : Bool → Run Handle} {value : Handle}
    (hcondition : condition.IsExpression (· < classes.count)) (hstate : state.IsSound classes)
    (h : (do next (← truth (← run condition)) : Run Handle) state = .ok value after) :
    ∃ answer before, before.IsSound classes ∧ next answer before = .ok value after := by
  obtain ⟨found, before, hfound, hnext⟩ := bind_eq_ok_iff.mp h
  obtain ⟨hbefore, hvalid⟩ := (hrun.expression hcondition hstate).of_ok hfound
  rw [truth_eq hvalid, pure_bind] at hnext
  exact ⟨_, before, hbefore, hnext⟩

/-- A value on its way out comes from a statement that returns, through blocks and
conditionals only. -/
theorem exists_forwards_of_execute (hclasses : classes.IsSound) {fuel : Nat} {node : Node}
    {inMethod : Bool} {value : Handle} (hnode : node.IsStatement classes.count inMethod)
    (hstate : state.IsSound classes)
    (h : execute classes fuel node state = .ok (.returned value) after) :
    ∃ origin before less, (Node.giveBack origin).Forwards node ∧ before.IsSound classes ∧
      execute classes less origin before = .ok value after := by
  induction fuel generalizing node inMethod state with
  | zero => cases h
  | succ fuel ih =>
      have hrun : Obeys classes (execute classes fuel) := execute_obeys hclasses fuel
      -- What could as well stand outside a method gives a valid value.
      have houtside (hnode : node.IsStatement classes.count false) : False :=
        ((Obeys.outside (execute_obeys hclasses (fuel + 1)) hnode hstate).of_ok h).2
      cases node with
      | giveBack origin =>
          obtain ⟨given, last, hgiven, hlast⟩ := bind_eq_ok_iff.mp h
          cases hlast
          exact ⟨origin, state, fuel, .here, hstate, hgiven⟩
      | block statements =>
          obtain ⟨statement, hmem, before, hbefore, hstatement⟩ :=
            exists_of_sequence hrun hnode hstate h
          have hinner := Node.areStatements_iff.mp hnode statement hmem
          obtain ⟨origin, start, less, hforwards, hstart, hgiven⟩ := ih hinner hbefore hstatement
          exact ⟨origin, start, less, .block hmem hforwards, hstart, hgiven⟩
      | ifThen condition consequent =>
          obtain ⟨answer, before, hbefore, hbranch⟩ := exists_of_condition hrun hnode.1 hstate h
          cases answer with
          | false => cases hbranch
          | true =>
              obtain ⟨origin, start, less, hforwards, hstart, hgiven⟩ := ih hnode.2 hbefore hbranch
              exact ⟨origin, start, less, .ifThen hforwards, hstart, hgiven⟩
      | ifThenElse condition consequent alternative =>
          obtain ⟨answer, before, hbefore, hbranch⟩ := exists_of_condition hrun hnode.1 hstate h
          cases answer with
          | false =>
              obtain ⟨origin, start, less, hforwards, hstart, hgiven⟩ :=
                ih hnode.2.2 hbefore hbranch
              exact ⟨origin, start, less, .ifThenElse (.inr rfl) hforwards, hstart, hgiven⟩
          | true =>
              obtain ⟨origin, start, less, hforwards, hstart, hgiven⟩ :=
                ih hnode.2.1 hbefore hbranch
              exact ⟨origin, start, less, .ifThenElse (.inl rfl) hforwards, hstart, hgiven⟩
      | _ => exact False.elim (houtside hnode)

end Run

/-! ## Returns are confined -/

/-- A node of a program: part of its tree or of the body of a method. -/
def Classes.Contains (classes : Classes) (tree node : Node) : Prop :=
  node.PartOf tree ∨ ∃ id record method, classes.get? id = some record ∧
    method ∈ record.methods ∧ node.PartOf method.body

/-- What becomes of a return in a program with these classes and this tree.  The states are
those in which all values are valid, and a value on its way out is not. -/
structure ReturnsConfined (classes : Classes) (tree : Node) : Prop where
  /-- The body of every method takes in what its block returns. -/
  bodies : ∀ id record, classes.get? id = some record → ∀ method ∈ record.methods,
    ∃ statements, method.body = .body (.block statements)
  /-- Whatever is asked for a value is an expression. -/
  operands : ∀ {node operand : Node}, classes.Contains tree node → operand ∈ node.operands →
    operand.IsExpression (· < classes.count)
  /-- An expression gives a valid value. -/
  expressions : ∀ {fuel : Nat} {node : Node} {state after : State} {value : Handle},
    node.IsExpression (· < classes.count) → state.IsSound classes →
    execute classes fuel node state = .ok value after → value.IsValid classes after.heap
  /-- Arguments are valid values. -/
  arguments : ∀ {fuel : Nat} {nodes : List Node} {state after : State} {values : List Handle},
    Node.AreExpressions (· < classes.count) nodes → state.IsSound classes →
    Run.runAll (execute classes fuel) nodes state = .ok values after →
    ∀ value ∈ values, value.IsValid classes after.heap
  /-- A call gives a valid value. -/
  calls : ∀ {fuel : Nat} {receiver : InstanceId} {name : String} {values : List Handle}
    {state after : State} {value : Handle}, state.IsSound classes →
    receiver < state.heap.instances.size →
    (∀ argument ∈ values, argument.IsValid classes state.heap) →
    Run.call classes (execute classes fuel) receiver name values state = .ok value after →
    value.IsValid classes after.heap
  /-- A value on its way out comes from a statement that returns, and is passed on by blocks
  and conditionals only. -/
  returns : ∀ {fuel : Nat} {node : Node} {state after : State} {value : Handle},
    classes.Contains tree node → state.IsSound classes →
    execute classes fuel node state = .ok (.returned value) after →
    ∃ origin before less, (Node.giveBack origin).Forwards node ∧ before.IsSound classes ∧
      execute classes less origin before = .ok value after
  /-- However running ends, all values in scopes and fields are valid then. -/
  stored : ∀ {fuel : Nat} {node : Node} {state after : State}, classes.Contains tree node →
    state.IsSound classes →
    ((∃ value, execute classes fuel node state = .ok value after) ∨
      ∃ reason, execute classes fuel node state = .error reason after) → after.IsSound classes

variable {classes : Classes} {tree : Node}

/-- Every node of a sound program is a statement. -/
theorem Classes.Contains.isStatement (hclasses : classes.IsSound)
    (htree : tree.IsStatement classes.count false) {node : Node}
    (h : classes.Contains tree node) : ∃ inMethod, node.IsStatement classes.count inMethod := by
  rcases h with hpart | ⟨id, record, method, hrecord, hmethod, hpart⟩
  · exact hpart.isStatement htree
  · exact hpart.isStatement (hclasses id record hrecord method hmethod).body_isStatement

/-- Returns are confined to methods in every sound program. -/
theorem returnsConfined_of_isSound (hclasses : classes.IsSound)
    (htree : tree.IsStatement classes.count false) : ReturnsConfined classes tree where
  bodies := by
    intro id record hrecord method hmethod
    obtain ⟨statements, hbody, -⟩ := hclasses id record hrecord method hmethod
    exact ⟨statements, hbody⟩
  operands := by
    intro node operand hnode hoperand
    obtain ⟨inMethod, hstatement⟩ := hnode.isStatement hclasses htree
    exact hstatement.operands_isExpression hoperand
  expressions := by
    intro fuel node state after value hnode hstate h
    exact ((Run.Obeys.expression (Run.execute_obeys hclasses fuel) hnode hstate).of_ok h).2
  arguments := by
    intro fuel nodes state after values hnodes hstate h
    exact ((Run.safe_runAll (Run.execute_obeys hclasses fuel) hnodes hstate).of_ok h).2
  calls := by
    intro fuel receiver name values state after value hstate hreceiver hvalues h
    exact ((Run.safe_call hclasses (Run.execute_obeys hclasses fuel) name hstate hreceiver
      hvalues).of_ok h).2
  returns := by
    intro fuel node state after value hnode hstate h
    obtain ⟨inMethod, hstatement⟩ := hnode.isStatement hclasses htree
    exact Run.exists_forwards_of_execute hclasses hstatement hstate h
  stored := by
    intro fuel node state after hnode hstate h
    obtain ⟨inMethod, hstatement⟩ := hnode.isStatement hclasses htree
    have hsafe := Run.execute_obeys hclasses fuel hstatement hstate
    rcases h with ⟨value, hvalue⟩ | ⟨reason, hreason⟩
    · exact (hsafe.of_ok hvalue).1
    · exact (hsafe.of_error hreason).1

end Offside
