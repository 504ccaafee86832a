import Offside.Proofs.Execution.Scopes

/-!
# What running binds

Only two kinds of statements bind names in the scope that they run in: assignments and class
definitions.  Blocks, bodies and conditionals pass on the scope that they are given, and whatever
is asked for a value leaves it as it is.  `Run.executions` lists the statements that run so, in
order, and `Run.bindings` what those of them bind that come to their end.

However a statement ends, the scope is then what it was before with just these bindings
(`Node.IsStatement.rebinds`).  The body of a method starts in a scope of its own, which is dropped
behind the call (`ScopesKept.bodies`), and a program starts in the global variables of its session
(`Session.Reachable.globals_run`).
-/

namespace Offside

/-- Bindings one after another may be made in two parts. -/
@[simp] theorem Bindings.setAll_append {α : Type} (bindings : Bindings α)
    (pairs more : List (String × α)) :
    bindings.setAll (pairs ++ more) = (bindings.setAll pairs).setAll more :=
  List.foldl_append

namespace Node

/-- A statement that binds a name. -/
inductive Binds : Node → Prop
  | assign (name : String) (value : Node) : Binds (.assign name value)
  | classDefinition (cls : ClassId) : Binds (.classDefinition cls)

/-- What a node binds itself when it comes to its end and gives this value. -/
def binding? (classes : Classes) : Node → Handle → Option (String × Handle)
  | .assign name _, value => some (name, value)
  | .classDefinition cls, _ => some (classes.nameOf cls, .own (.ofClass cls))
  | _, _ => none

end Node

namespace Run

/-- One execution of a node. -/
structure Execution where
  fuel : Nat
  node : Node
  /-- The state in which it starts. -/
  state : State

/-- What an execution binds itself, if it comes to its end. -/
def Execution.binding? (classes : Classes) (execution : Execution) : Option (String × Handle) :=
  match execute classes execution.fuel execution.node execution.state with
  | .ok value _ => execution.node.binding? classes value
  | .error _ _ => none

/-- The executions that come of statements in order, up to the first that returns or stops. -/
def inOrder (run : Node → Run Handle) (each : Node → State → List Execution) :
    List Node → State → List Execution
  | [], _ => []
  | node :: nodes, state =>
    each node state ++
      match run node state with
      | .ok (.returned _) _ | .error _ _ => []
      | .ok _ between => inOrder run each nodes between

/-- The executions of statements that are neither blocks nor bodies nor conditionals and run in
the scope of this one. -/
def executions (classes : Classes) : Nat → Node → State → List Execution
  | 0, node, state => [⟨0, node, state⟩]
  | fuel + 1, node, state =>
    let run := execute classes fuel
    match node with
    | .block statements => inOrder run (executions classes fuel) statements state
    | .body inner => executions classes fuel inner state
    | .ifThen condition consequent =>
      match (do truth (← run condition) : Run Bool) state with
      | .ok true between => executions classes fuel consequent between
      | .ok false _ | .error _ _ => []
    | .ifThenElse condition consequent alternative =>
      match (do truth (← run condition) : Run Bool) state with
      | .ok true between => executions classes fuel consequent between
      | .ok false between => executions classes fuel alternative between
      | .error _ _ => []
    | node => [⟨fuel + 1, node, state⟩]

/-- What assignments and class definitions bind that come to their end in the scope of a
statement. -/
def bindings (classes : Classes) (fuel : Nat) (node : Node) (state : State) :
    List (String × Handle) :=
  (executions classes fuel node state).filterMap (Execution.binding? classes)

/-- One execution is part of another, with nothing called between them. -/
inductive RunsIn (classes : Classes) (inner : Execution) : Execution → Prop
  | here : RunsIn classes inner inner
  | part {fuel : Nat} {node part : Node} {state between : State}
      (h : Enters classes (execute classes fuel) fuel node state part between)
      (hrest : RunsIn classes inner ⟨fuel, part, between⟩) :
      RunsIn classes inner ⟨fuel + 1, node, state⟩

variable {α β : Type} {classes : Classes} {run : Node → Run Handle} {state after : State}
  {count fuel : Nat} {inMethod : Bool}

/-! ## The list of executions -/

/-- Behind a condition is what is behind its truth. -/
theorem condition_eq_ok_iff {condition : Node} {answer : Bool} :
    (do truth (← run condition) : Run Bool) state = .ok answer after ↔
      ∃ value, run condition state = .ok value after ∧ truth value after = .ok answer after := by
  constructor
  · intro h
    obtain ⟨value, between, hvalue, htruth⟩ := bind_eq_ok_iff.mp h
    obtain ⟨other, hother⟩ | ⟨reason, hreason⟩ := asks_truth value between
    · cases hother.symm.trans htruth
      exact ⟨value, hvalue, hother⟩
    · cases hreason.symm.trans htruth
  · rintro ⟨value, hvalue, htruth⟩
    exact bind_eq_ok_iff.mpr ⟨value, after, hvalue, htruth⟩

/-- The executions of a block are those of the statements that it gets to. -/
theorem mem_inOrder_iff {each : Node → State → List Execution} {nodes : List Node}
    {execution : Execution} :
    execution ∈ inOrder run each nodes state ↔
      ∃ node between, Gets (FallsThrough run) nodes state node between ∧
        execution ∈ each node between := by
  induction nodes generalizing state with
  | nil =>
      constructor
      · intro h
        cases h
      · rintro ⟨node, between, h, -⟩
        cases h
  | cons first nodes ih =>
      rw [inOrder, List.mem_append]
      constructor
      · rintro (hfirst | hlater)
        · exact ⟨first, state, .here, hfirst⟩
        · split at hlater
          · cases hlater
          · cases hlater
          · rename_i value next hreturned hresult
            obtain ⟨node, between, hgets, hmem⟩ := ih.mp hlater
            refine ⟨node, between, .later ⟨value, fun inner heq => ?_, hresult⟩ hgets, hmem⟩
            exact hreturned inner heq
      · rintro ⟨node, between, hgets, hmem⟩
        cases hgets with
        | here => exact .inl hmem
        | later hpasses hgets =>
            obtain ⟨value, hvalue, hresult⟩ := hpasses
            have hlater := ih.mpr ⟨node, between, hgets, hmem⟩
            right
            rw [hresult]
            cases value with
            | returned inner => exact absurd rfl (hvalue inner)
            | empty => exact hlater
            | holding object owning => exact hlater

theorem Gets.mem {passes : Node → State → State → Prop} {nodes : List Node} {sub : Node}
    {substate : State} (h : Gets passes nodes state sub substate) : sub ∈ nodes := by
  induction h with
  | here => exact List.mem_cons_self
  | later _ _ ih => exact List.mem_cons_of_mem _ ih

/-- What runs as a part of a node is asked for a value, or it is one of its branches. -/
theorem Enters.mem {node part : Node} {between : State}
    (h : Enters classes run fuel node state part between) :
    part ∈ node.operands ∨ part ∈ node.branches := by
  cases h with
  | first _ hhead => exact .inl (List.mem_of_mem_head? hhead)
  | arithmetic | comparison | or | and | assignField =>
      exact .inl (List.mem_cons_of_mem _ List.mem_cons_self)
  | call _ _ _ hsub => exact .inl (List.mem_cons_of_mem _ hsub.mem)
  | create _ _ hsub => exact .inl hsub.mem
  | print hsub => exact .inl hsub.mem
  | block hsub => exact .inr hsub.mem
  | body | ifThen | consequent => exact .inr List.mem_cons_self
  | alternative => exact .inr (List.mem_cons_of_mem _ List.mem_cons_self)

/-- No part of an expression binds. -/
theorem RunsIn.not_binds {inner outer : Execution} (h : RunsIn classes inner outer)
    (houter : outer.node.IsExpression (· < count)) : ¬ inner.node.Binds := by
  induction h with
  | here =>
      intro hbinds
      cases hnode : inner.node with
      | assign | classDefinition =>
          rw [hnode] at houter
          exact houter
      | _ =>
          rw [hnode] at hbinds
          cases hbinds
  | @part _ node part _ _ h _ ih =>
      have hstatement : node.IsStatement count false := Node.IsExpression.isStatement houter false
      rcases h.mem with hoperand | hbranch
      · exact ih (hstatement.operands_isExpression hoperand)
      · cases node with
        | block | body | ifThen | ifThenElse => exact False.elim houter
        | _ => cases hbranch

/-- Each listed execution is part of the execution of the statement. -/
theorem runsIn_of_mem {node : Node} {execution : Execution}
    (h : execution ∈ executions classes fuel node state) :
    RunsIn classes execution ⟨fuel, node, state⟩ := by
  induction fuel generalizing node state with
  | zero =>
      rw [List.mem_singleton.mp h]
      exact .here
  | succ fuel ih =>
      cases node with
      | block statements =>
          obtain ⟨part, between, hgets, hmem⟩ := mem_inOrder_iff.mp h
          exact .part (.block hgets) (ih hmem)
      | body inner => exact .part .body (ih h)
      | ifThen condition consequent =>
          rw [executions] at h
          split at h
          · rename_i between hcondition
            obtain ⟨value, hvalue, htruth⟩ := condition_eq_ok_iff.mp hcondition
            exact .part (.ifThen hvalue htruth) (ih h)
          · cases h
          · cases h
      | ifThenElse condition consequent alternative =>
          rw [executions] at h
          split at h
          · rename_i between hcondition
            obtain ⟨value, hvalue, htruth⟩ := condition_eq_ok_iff.mp hcondition
            exact .part (.consequent hvalue htruth) (ih h)
          · rename_i between hcondition
            obtain ⟨value, hvalue, htruth⟩ := condition_eq_ok_iff.mp hcondition
            exact .part (.alternative hvalue htruth) (ih h)
          · cases h
      | _ =>
          rw [List.mem_singleton.mp h]
          exact .here

/-- Whatever binds in the scope of a statement is listed. -/
theorem RunsIn.mem {inner outer : Execution} (h : RunsIn classes inner outer)
    (houter : outer.node.IsStatement count inMethod) (hbinds : inner.node.Binds) :
    inner ∈ executions classes outer.fuel outer.node outer.state := by
  induction h generalizing inMethod with
  | here =>
      obtain ⟨fuel, node, state⟩ := inner
      cases hbinds <;> cases fuel <;> exact List.mem_singleton_self _
  | @part fuel node part state between h hrest ih =>
      -- what is asked for a value is an expression
      have hoperand (hmem : part ∈ node.operands) : False :=
        hrest.not_binds (houter.operands_isExpression hmem) hbinds
      have hstatement {inBranch : Bool} (hpart : part.IsStatement count inBranch) :
          inner ∈ executions classes fuel part between :=
        ih hpart
      cases h with
      | first _ hhead => exact False.elim (hoperand (List.mem_of_mem_head? hhead))
      | arithmetic | comparison | or | and | assignField =>
          exact False.elim (hoperand (List.mem_cons_of_mem _ List.mem_cons_self))
      | call _ _ _ hsub => exact False.elim (hoperand (List.mem_cons_of_mem _ hsub.mem))
      | create _ _ hsub => exact False.elim (hoperand hsub.mem)
      | print hsub => exact False.elim (hoperand hsub.mem)
      | block hsub =>
          have hpart := Node.areStatements_iff.mp houter part hsub.mem
          exact mem_inOrder_iff.mpr ⟨part, between, hsub, hstatement hpart⟩
      | body => exact @hstatement true houter
      | ifThen hvalue htruth =>
          have hcondition := condition_eq_ok_iff.mpr ⟨_, hvalue, htruth⟩
          rw [executions, hcondition]
          exact hstatement houter.2
      | consequent hvalue htruth =>
          have hcondition := condition_eq_ok_iff.mpr ⟨_, hvalue, htruth⟩
          rw [executions, hcondition]
          exact hstatement houter.2.1
      | alternative hvalue htruth =>
          have hcondition := condition_eq_ok_iff.mpr ⟨_, hvalue, htruth⟩
          rw [executions, hcondition]
          exact hstatement houter.2.2

/-! ## Scopes in the end -/

/-- However the computation ends, the scope is then what it was with these bindings. -/
def Rebinds (computation : Run α) (state : State) (pairs : List (String × Handle)) : Prop :=
  ∀ after, Leaves computation state after → after.scope = state.scope.setAll pairs

theorem KeepsScope.rebinds {computation : Run α} (h : KeepsScope computation) (state : State) :
    Rebinds computation state [] :=
  fun after hleaves => h state after hleaves

/-- The bindings of computations in sequence are those of the first and, if it gives a value,
those of the one behind it. -/
theorem Rebinds.bind {first : Run α} {next : α → Run β} {pairs more : List (String × Handle)}
    (hfirst : Rebinds first state pairs)
    (hstop : ∀ reason between, first state = .error reason between → more = [])
    (hnext : ∀ value between, first state = .ok value between →
      Rebinds (next value) between more) : Rebinds (first >>= next) state (pairs ++ more) := by
  intro after hleaves
  rw [Bindings.setAll_append]
  rcases leaves_bind_iff.mp hleaves with ⟨reason, hreason⟩ | ⟨value, between, hvalue, hrest⟩
  · rw [hstop reason after hreason, ← hfirst after (.inr ⟨reason, hreason⟩)]
    rfl
  · rw [← hfirst between (.inl ⟨value, hvalue⟩)]
    exact hnext value between hvalue after hrest

/-- What keeps the scope behind a computation adds no bindings to it. -/
theorem Rebinds.keep {first : Run α} {next : α → Run β} {pairs : List (String × Handle)}
    (hfirst : Rebinds first state pairs) (hnext : ∀ value, KeepsScope (next value)) :
    Rebinds (first >>= next) state pairs := by
  rw [← List.append_nil pairs]
  exact hfirst.bind (fun _ _ _ => rfl) fun value between _ => (hnext value).rebinds between

theorem rebinds_assign (name : String) (value : Handle) (state : State) :
    Rebinds (assign name value) state [(name, value)] := by
  rintro after (⟨_, hvalue⟩ | ⟨_, hreason⟩)
  · cases hvalue
    rfl
  · cases hreason

/-- The bindings of a block are those of its statements, up to the first that returns or
stops. -/
theorem rebinds_sequence {each : Node → State → List Execution}
    {binds : Execution → Option (String × Handle)} {nodes : List Node}
    (h : ∀ node ∈ nodes, ∀ state, Rebinds (run node) state ((each node state).filterMap binds))
    (state : State) :
    Rebinds (sequence run nodes) state ((inOrder run each nodes state).filterMap binds) := by
  induction nodes generalizing state with
  | nil => exact (KeepsScope.pure _).rebinds state
  | cons node nodes ih =>
      obtain ⟨hnode, hothers⟩ := List.forall_mem_cons.mp h
      rw [inOrder, List.filterMap_append]
      refine (hnode state).bind (fun reason between hreason => ?_) fun value between hvalue => ?_
      · rw [hreason]
        rfl
      · rw [hvalue]
        cases value with
        | returned inner => exact (KeepsScope.pure _).rebinds between
        | empty | holding => exact ih hothers between

/-- Behind a condition are the bindings of what runs behind it. -/
theorem Rebinds.condition {condition : Node} {next : Bool → Run β}
    {pairs : List (String × Handle)} (hcondition : KeepsScope (run condition))
    (hstop : ∀ reason between,
      (do truth (← run condition) : Run Bool) state = .error reason between → pairs = [])
    (hnext : ∀ answer between,
      (do truth (← run condition) : Run Bool) state = .ok answer between →
        Rebinds (next answer) between pairs) :
    Rebinds (do next (← truth (← run condition))) state pairs := by
  rw [← bind_assoc (run condition)]
  exact ((keepsScope_condition hcondition).rebinds state).bind hstop hnext

theorem Execution.binding?_of_ok {execution : Execution} {value : Handle}
    (h : execute classes execution.fuel execution.node execution.state = .ok value after) :
    execution.binding? classes = execution.node.binding? classes value := by
  rw [binding?, h]

theorem Execution.binding?_of_error {execution : Execution} {reason : Stop}
    (h : execute classes execution.fuel execution.node execution.state = .error reason after) :
    execution.binding? classes = none := by
  rw [binding?, h]

theorem Execution.binding?_of_not_binds {execution : Execution} (h : ¬ execution.node.Binds) :
    execution.binding? classes = none := by
  cases hresult : execute classes execution.fuel execution.node execution.state with
  | error reason after => exact binding?_of_error hresult
  | ok value after =>
      rw [binding?_of_ok hresult]
      cases hnode : execution.node with
      | assign name value => exact absurd (hnode ▸ .assign name value) h
      | classDefinition cls => exact absurd (hnode ▸ .classDefinition cls) h
      | _ => rfl

/-- A statement that is listed alone binds what it binds itself. -/
theorem bindings_of_executions {node : Node}
    (h : executions classes fuel node state = [⟨fuel, node, state⟩]) :
    bindings classes fuel node state =
      (Execution.binding? classes ⟨fuel, node, state⟩).toList := by
  rw [bindings, h]
  cases hbinding : Execution.binding? classes ⟨fuel, node, state⟩ with
  | none => rw [List.filterMap_cons_none hbinding, List.filterMap_nil, Option.toList_none]
  | some pair => rw [List.filterMap_cons_some hbinding, List.filterMap_nil, Option.toList_some]

/-- What keeps the scope and is listed alone binds nothing. -/
theorem KeepsScope.rebinds_bindings {node : Node} (h : KeepsScope (execute classes fuel node))
    (hexecutions : executions classes fuel node state = [⟨fuel, node, state⟩])
    (hbinds : ¬ node.Binds) :
    Rebinds (execute classes fuel node) state (bindings classes fuel node state) := by
  rw [bindings_of_executions hexecutions, Execution.binding?_of_not_binds hbinds]
  exact h.rebinds state

/-- An assignment binds its name if its value is found. -/
theorem rebinds_execute_assign {value : Node} (h : KeepsScope (execute classes fuel value))
    (name : String) (state : State) :
    Rebinds (execute classes (fuel + 1) (.assign name value)) state
      (bindings classes (fuel + 1) (.assign name value) state) := by
  rw [bindings_of_executions rfl]
  refine (h.rebinds state).bind (fun reason between hreason => ?_) fun handle between hhandle => ?_
  · have hstops : execute classes (fuel + 1) (.assign name value) state = .error reason between :=
      bind_eq_error_iff.mpr (.inl hreason)
    rw [Execution.binding?_of_error hstops]
  · have hends : execute classes (fuel + 1) (.assign name value) state =
        .ok handle { between with scope := between.scope.set name handle } :=
      bind_eq_ok_iff.mpr ⟨handle, between, hhandle, rfl⟩
    rw [Execution.binding?_of_ok hends]
    exact (rebinds_assign name handle between).keep fun _ => .pure _

end Run

open Run

/-- However a statement ends, the scope is then what it was with the bindings of the assignments
and class definitions that came to their end in it. -/
theorem Node.IsStatement.rebinds {count : Nat} {node : Node} {inMethod : Bool}
    (h : node.IsStatement count inMethod) (classes : Classes) (fuel : Nat) (state : State) :
    Rebinds (execute classes fuel node) state (bindings classes fuel node state) := by
  -- the list follows the node as running does, so each case is that of the computation
  induction fuel generalizing node inMethod state with
  | zero =>
      rw [bindings_of_executions rfl, Execution.binding?_of_error rfl]
      exact (keepsScope_stop _).rebinds state
  | succ fuel ih =>
      have hexpression {node : Node} (hnode : node.IsExpression (· < count)) :
          KeepsScope (execute classes fuel node) :=
        hnode.keepsScope classes fuel
      cases node with
      | assign name value => exact rebinds_execute_assign (hexpression h) name state
      | classDefinition cls =>
          exact (rebinds_assign (classes.nameOf cls) _ state).keep fun _ => .pure _
      | assignField object field value =>
          exact (h.1.keepsScope_assignField h.2 field classes _).rebinds_bindings rfl nofun
      | print arguments =>
          have harguments := Node.areExpressions_iff.mp h
          have hline : KeepsScope (printLine classes (execute classes fuel) fuel arguments) :=
            keepsScope_printLine fuel fun argument hmem => hexpression (harguments argument hmem)
          exact KeepsScope.rebinds_bindings (hline.bind fun _ => .pure _) rfl nofun
      | giveBack value =>
          exact KeepsScope.rebinds_bindings ((hexpression h.2).bind fun _ => .pure _) rfl nofun
      | block statements =>
          exact rebinds_sequence (fun statement hmem state =>
            ih (Node.areStatements_iff.mp h statement hmem) state) state
      | body inner =>
          have hinner : inner.IsStatement count true := h
          refine (ih hinner state).keep fun value => ?_
          cases value with
          | returned inner => exact .pure _
          | empty | holding => exact .pure _
      | ifThen condition consequent =>
          refine Rebinds.condition (hexpression h.1) (fun reason between hreason => ?_)
            fun answer between hanswer => ?_
          · rw [bindings, executions, hreason]
            rfl
          · rw [bindings, executions, hanswer]
            cases answer with
            | true => exact ih h.2 between
            | false => exact (KeepsScope.pure _).rebinds between
      | ifThenElse condition consequent alternative =>
          refine Rebinds.condition (hexpression h.1) (fun reason between hreason => ?_)
            fun answer between hanswer => ?_
          · rw [bindings, executions, hreason]
            rfl
          · rw [bindings, executions, hanswer]
            cases answer with
            | true => exact ih h.2.1 between
            | false => exact ih h.2.2 between
      | _ =>
          exact (Node.IsExpression.keepsScope h classes (fuel + 1)).rebinds_bindings rfl nofun

/-- What becomes of scopes while trees run, with these classes. -/
structure ScopesKept (classes : Classes) : Prop where
  /-- An expression leaves the scope as it is, however it ends and whatever it calls. -/
  expressions : ∀ {makes : ClassId → Prop} {node : Node}, node.IsExpression makes →
    ∀ fuel, KeepsScope (execute classes fuel node)
  /-- An assignment that comes to its end binds its name to its value, and one that stops binds
  nothing. -/
  assignments : ∀ {makes : ClassId → Prop} {value : Node}, value.IsExpression makes →
    ∀ fuel name (state after : State),
      (∀ given, execute classes fuel (.assign name value) state = .ok given after →
        after.scope = state.scope.set name given) ∧
      ∀ reason, execute classes fuel (.assign name value) state = .error reason after →
        after.scope = state.scope
  /-- Binding a field leaves the scope as it is. -/
  fields : ∀ {makes : ClassId → Prop} {object value : Node}, object.IsExpression makes →
    value.IsExpression makes → ∀ fuel field,
      KeepsScope (execute classes fuel (.assignField object field value))
  /-- A call leaves the scope of the caller as it is, whatever the method does. -/
  calls : ∀ run receiver name values, KeepsScope (call classes run receiver name values)
  /-- A call does nothing at all, or it runs the body of a method.  What is bound there is bound
  in a scope that has the receiver and the arguments, and that is dropped behind the call. -/
  bodies : classes.IsSound → ∀ fuel receiver name values (state after : State),
    Leaves (call classes (execute classes fuel) receiver name values) state after →
      after = state ∨ ∃ method inner, methodOf? classes state.heap receiver name = some method ∧
        method.parameters.length = values.length ∧
        Leaves (execute classes fuel method.body)
          { state with scope := frame receiver method.parameters values } inner ∧
        inner.scope = (frame receiver method.parameters values).setAll
          (bindings classes fuel method.body
            { state with scope := frame receiver method.parameters values }) ∧
        after = { inner with scope := state.scope }
  /-- However a statement ends, the scope is then what it was with the bindings of the
  assignments and class definitions that came to their end in it. -/
  statements : ∀ {count : Nat} {node : Node} {inMethod : Bool}, node.IsStatement count inMethod →
    ∀ fuel state, Rebinds (execute classes fuel node) state (bindings classes fuel node state)
  /-- None of these is left out, and all of them run there. -/
  listed : ∀ {count : Nat} {node : Node} {inMethod : Bool}, node.IsStatement count inMethod →
    ∀ fuel state (inner : Execution), inner.node.Binds →
      (inner ∈ executions classes fuel node state ↔ RunsIn classes inner ⟨fuel, node, state⟩)

theorem scopesKept_of_classes (classes : Classes) : ScopesKept classes where
  expressions h fuel := h.keepsScope classes fuel
  assignments := by
    intro makes value h fuel name state after
    cases fuel with
    | zero =>
        constructor
        · intro given hgiven
          cases hgiven
        · intro reason hreason
          cases hreason
          rfl
    | succ fuel =>
        have hrebinds := rebinds_execute_assign (h.keepsScope classes fuel) name state
        rw [bindings_of_executions rfl] at hrebinds
        constructor
        · intro given hgiven
          rw [Execution.binding?_of_ok hgiven] at hrebinds
          exact hrebinds after (.inl ⟨given, hgiven⟩)
        · intro reason hreason
          rw [Execution.binding?_of_error hreason] at hrebinds
          exact hrebinds after (.inr ⟨reason, hreason⟩)
  fields hobject hvalue fuel field := hobject.keepsScope_assignField hvalue field classes fuel
  calls := keepsScope_call classes
  bodies := by
    intro hclasses fuel receiver name values state after hleaves
    obtain hsame | ⟨method, inner, hmethod, hlength, hinner, hafter⟩ := call_cases hleaves
    · exact .inl hsame
    · obtain ⟨cls, -, hresolve⟩ := Option.bind_eq_some_iff.mp hmethod
      have hbody := (hclasses.resolve hresolve).body_isStatement
      exact .inr ⟨method, inner, hmethod, hlength, hinner,
        hbody.rebinds classes fuel _ inner hinner, hafter⟩
  statements h fuel state := h.rebinds classes fuel state
  listed h fuel state inner hbinds := ⟨runsIn_of_mem, fun hruns => hruns.mem h hbinds⟩

/-! ## Global variables -/

namespace Session

/-- However a source that is read ends, the global variables are then what they were with the
bindings of the assignments and class definitions that came to their end in it. -/
theorem Reachable.globals_run {session : Session} (h : session.Reachable) {source : String}
    {classes : Classes} {tree : Node} (hread : session.Reads source classes tree) (fuel : Nat) :
    (session.run fuel source).session.globals =
      session.globals.setAll (bindings classes fuel tree session.initial) := by
  obtain ⟨-, hstatement, -⟩ := h.isSound.of_reads hread
  obtain ⟨program, hprogram, htree, rfl⟩ := hread
  have hruns := run_of_read hprogram htree fuel
  have hrebinds : Rebinds (executeProgram program.declared.classes fuel tree) session.initial
      (bindings program.declared.classes fuel tree session.initial) := by
    refine (hstatement.rebinds _ fuel session.initial).keep fun value => ?_
    cases value with
    | returned inner => exact keepsScope_fail _
    | empty | holding => exact .pure _
  obtain ⟨after, hleaves, hinitial⟩ := session.exists_leaves_of_execute fuel program tree
  rw [hruns]
  calc (session.execute fuel program tree).session.globals
      = after.scope := congrArg State.scope hinitial
    _ = session.globals.setAll (bindings program.declared.classes fuel tree session.initial) :=
        hrebinds after hleaves

/-- Expressions and calls leave the scope as it is, and what runs in a scope binds there what its
assignments and class definitions bind that come to their end.  In a program that is read, all
that is asked for a value is an expression, in methods too.  When it ends, whether it stops or not,
the global variables have just these bindings more. -/
theorem scopes_kept :
    (∀ classes, ScopesKept classes) ∧
      ∀ session : Session, session.Reachable → ∀ source classes tree,
        session.Reads source classes tree → ∀ fuel,
          (∀ node operand, classes.Contains tree node → operand ∈ node.operands →
            KeepsScope (Offside.execute classes fuel operand)) ∧
          (session.run fuel source).session.globals =
            session.globals.setAll (bindings classes fuel tree session.initial) ∧
          ∀ inner : Execution, inner.node.Binds →
            (inner ∈ executions classes fuel tree session.initial ↔
              RunsIn classes inner ⟨fuel, tree, session.initial⟩) := by
  refine ⟨scopesKept_of_classes, fun session h source classes tree hread fuel => ?_⟩
  obtain ⟨hclasses, htree, -⟩ := h.isSound.of_reads hread
  refine ⟨fun node operand hnode hoperand => ?_, h.globals_run hread fuel,
    (scopesKept_of_classes classes).listed htree fuel _⟩
  obtain ⟨inMethod, hstatement⟩ := hnode.isStatement hclasses htree
  exact (hstatement.operands_isExpression hoperand).keepsScope classes fuel

/-- A method binds a variable and a field, and the program stops behind two bindings. -/
def sampleStop : String :=
  "class B:\n  def g(self):\n    c = 1\n    self.d = c\nb = B()\nb.g()\nprint missing\nz = 1\n"

/-- The variable of the method is not among the global ones, nor is what was not reached. -/
theorem scopes_kept_sample :
    sampleSession.Reachable ∧
      (∃ classes tree, sampleSession.Reads sampleStop classes tree ∧
        (sampleSession.run 40 sampleStop).session.globals =
          sampleSession.globals.setAll (bindings classes 40 tree sampleSession.initial)) ∧
      (sampleSession.run 40 sampleStop).conclusion =
        .failed (.run (.unknownVariable "missing")) ∧
      (sampleSession.run 40 sampleStop).session.globals.names = ["limit", "A", "a", "B", "b"] := by
  have hstops : (sampleSession.run 40 sampleStop).conclusion =
        .failed (.run (.unknownVariable "missing")) ∧
      (sampleSession.run 40 sampleStop).session.globals.names = ["limit", "A", "a", "B", "b"] := by
    decide +kernel
  refine ⟨reachable_sampleSession, ?_, hstops⟩
  obtain ⟨fault, hrefuses⟩ | ⟨program, tree, hprogram, htree, -⟩ :=
    sampleSession.refuses_or_runs sampleStop
  · cases hstops.1.symm.trans (hrefuses.run 40).1
  · have hread : sampleSession.Reads sampleStop program.declared.classes tree :=
      ⟨program, hprogram, htree, rfl⟩
    exact ⟨_, _, hread,
      (scopes_kept.2 sampleSession reachable_sampleSession sampleStop _ _ hread 40).2.1⟩

end Session

end Offside
