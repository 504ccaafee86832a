import Offside.Proofs.Execution.MissingMethod

/-!
# Where bodies start

The body of a method starts in a frame of its own, which binds the receiver and the arguments
(`Run.frame_binds`).  The receiver is bound first and the parameters behind it, one after another,
so where two parameters have one name the later one wins.

A method is called in five ways: by a method call, by making an instance, by a sum, by comparing,
and by writing an instance to a stream, which is what printing and finding a text come to.
`Run.BindsCalls` says of each of them which values are the arguments, and what becomes of the value
that the body gives.  All of them come down to `Run.call`, and what a computation does before the
call and behind it is put around it by `RunsBody.behind` and `RunsBody.bind`.
-/

namespace Offside

/-! ## Frames -/

namespace Bindings

variable {α : Type} {bindings : Bindings α} {names : List String} {values : List α}
  {name : String}

/-- Binding other names changes nothing. -/
theorem get?_setAll_of_not_mem (hname : name ∉ names) :
    (bindings.setAll (names.zip values)).get? name = bindings.get? name := by
  induction names generalizing bindings values with
  | nil => rfl
  | cons first names ih =>
      obtain ⟨hfirst, hothers⟩ := not_or.mp (mt List.mem_cons.mpr hname)
      cases values with
      | nil => rfl
      | cons value values =>
          rw [List.zip_cons_cons, setAll_cons, ih hothers, get?_set_of_ne _ _ (Ne.symm hfirst)]

/-- Of several values for one name the last one stays. -/
theorem get?_setAll_of_last {index : Nat} {value : α} (hname : names[index]? = some name)
    (hvalue : values[index]? = some value)
    (hlast : ∀ later > index, names[later]? ≠ some name) :
    (bindings.setAll (names.zip values)).get? name = some value := by
  induction names generalizing bindings values index with
  | nil => cases hname
  | cons first names ih =>
      cases values with
      | nil => cases hvalue
      | cons given values =>
          rw [List.zip_cons_cons, setAll_cons]
          cases index with
          | zero =>
              cases hname
              cases hvalue
              have hothers : name ∉ names := fun hmem => by
                obtain ⟨later, hlater⟩ := List.mem_iff_getElem?.mp hmem
                exact hlast (later + 1) (Nat.succ_pos later) hlater
              rw [get?_setAll_of_not_mem hothers, get?_set_self]
          | succ index =>
              exact ih hname hvalue fun later hlater => hlast (later + 1) (Nat.succ_lt_succ hlater)

theorem mem_names_setAll (hlength : names.length = values.length) :
    name ∈ (bindings.setAll (names.zip values)).names ↔ name ∈ bindings.names ∨ name ∈ names := by
  induction names generalizing bindings values with
  | nil => simp
  | cons first names ih =>
      cases values with
      | nil => cases hlength
      | cons value values =>
          rw [List.zip_cons_cons, setAll_cons, ih (Nat.succ.inj hlength), mem_names_set,
            List.mem_cons]
          tauto

end Bindings

namespace Run

/-- The scope binds the receiver and the parameters and nothing else: the receiver to the instance,
unless a parameter has its name, and a parameter to its argument, unless a later one has its name
too.  What a parameter of the name of the receiver is bound to is left open. -/
structure BindsCall (receiver : InstanceId) (parameters : List String) (arguments : List Handle)
    (scope : Scope) : Prop where
  names : ∀ name, name ∈ scope.names ↔ name = Heap.selfName ∨ name ∈ parameters
  receiver : Heap.selfName ∉ parameters →
    scope.get? Heap.selfName = some (.share (.ofInstance receiver))
  argument : ∀ (index : Nat) (name : String) (value : Handle),
    parameters[index]? = some name → arguments[index]? = some value →
    name ≠ Heap.selfName → (∀ later > index, parameters[later]? ≠ some name) →
    scope.get? name = some value

theorem frame_binds (receiver : InstanceId) {parameters : List String} {arguments : List Handle}
    (hlength : parameters.length = arguments.length) :
    BindsCall receiver parameters arguments (frame receiver parameters arguments) where
  names name := by
    unfold frame
    rw [Bindings.mem_names_setAll hlength, Bindings.mem_names_set]
    have hempty : name ∉ (Bindings.empty : Scope).names := List.not_mem_nil
    simp only [hempty, or_false, eq_comm]
  receiver hself := (Bindings.get?_setAll_of_not_mem hself).trans (Bindings.get?_set_self _ _ _)
  argument _ _ _ hname hvalue _ hlast := Bindings.get?_setAll_of_last hname hvalue hlast

/-! ## Running a body -/

variable {α β : Type} {classes : Classes} {run : Node → Run Handle} {fuel : Nat}

/-- The name means this method for the instance, and the method has so many parameters. -/
structure Means (classes : Classes) (heap : Heap) (id : InstanceId) (name : String) (arity : Nat)
    (method : Method) : Prop where
  resolved : methodOf? classes heap id name = some method
  length : method.parameters.length = arity

/-- A computation that starts in one state runs the body of a method in another state and in a
scope that binds the receiver and the arguments, and does `rest` with what the body gives. -/
def RunsBody (run : Node → Run Handle) (computation : Run α) (before : State)
    (receiver : InstanceId) (method : Method) (arguments : List Handle) (ready : State)
    (rest : Handle → Run α) : Prop :=
  ∃ scope, BindsCall receiver method.parameters arguments scope ∧
    computation before = (within scope (run method.body) >>= rest) ready

/-- The nodes give these values, one after another, each in the state that the one before it
leaves. -/
inductive GiveAll (run : Node → Run Handle) : List Node → State → List Handle → State → Prop
  | nil (state : State) : GiveAll run [] state [] state
  | cons {node : Node} {nodes : List Node} {value : Handle} {values : List Handle}
      {state between after : State} (hnode : run node state = .ok value between)
      (h : GiveAll run nodes between values after) :
      GiveAll run (node :: nodes) state (value :: values) after

section

variable {heap : Heap} {state before between ready after : State} {id receiver : InstanceId}
  {name : String} {arity : Nat} {method : Method} {arguments : List Handle}
  {computation : Run α} {rest : Handle → Run α}

theorem Means.hasMethod (h : Means classes heap id name arity method) :
    heap.hasMethod classes id name arity = true :=
  hasMethod_iff.mpr ⟨method, h.resolved, h.length⟩

/-- What an instance has a method for stays what that method is. -/
theorem Means.extends (h : Means classes before.heap id name arity method)
    (hextends : before.Extends after) : Means classes after.heap id name arity method := by
  obtain ⟨cls, hcls, hmethod⟩ := Option.bind_eq_some_iff.mp h.resolved
  refine ⟨?_, h.length⟩
  rw [methodOf?, hextends.class? id cls hcls]
  exact hmethod

theorem GiveAll.runAll_eq {nodes : List Node} {values : List Handle}
    (h : GiveAll run nodes state values after) : runAll run nodes state = .ok values after := by
  induction h with
  | nil => rfl
  | cons hnode _ ih =>
      exact bind_eq_ok_iff.mpr ⟨_, _, hnode, bind_eq_ok_iff.mpr ⟨_, _, ih, rfl⟩⟩

/-- Finding the values of the arguments does not change what the method is. -/
theorem Means.of_giveAll {nodes : List Node} {values : List Handle}
    (h : Means classes state.heap id name nodes.length method)
    (hvalues : GiveAll (execute classes fuel) nodes state values ready) :
    Means classes ready.heap id name values.length method := by
  have hall := hvalues.runAll_eq
  rw [length_of_runAll hall]
  exact h.extends (extends_of_runAll hall)

/-- A call runs the body of the method and gives what the body gives. -/
theorem Means.runsBody_call (h : Means classes state.heap receiver name arguments.length method) :
    RunsBody run (call classes run receiver name arguments) state receiver method arguments state
      pure := by
  refine ⟨frame receiver method.parameters arguments, frame_binds receiver h.length, ?_⟩
  rw [bind_pure]
  unfold call
  rw [h.resolved]
  exact if_pos h.length

/-- What is done behind a computation is done behind the body. -/
theorem RunsBody.bind (h : RunsBody run computation before receiver method arguments ready rest)
    (next : α → Run β) :
    RunsBody run (computation >>= next) before receiver method arguments ready
      fun value => rest value >>= next := by
  obtain ⟨scope, hbinds, heq⟩ := h
  refine ⟨scope, hbinds, ?_⟩
  rw [← bind_assoc]
  change EStateM.bind computation next before = EStateM.bind _ next ready
  unfold EStateM.bind
  rw [heq]

/-- What is done before a computation is done before the body. -/
theorem RunsBody.behind {first : Run β} {value : β} {next : β → Run α}
    (hfirst : first before = .ok value between)
    (h : RunsBody run (next value) between receiver method arguments ready rest) :
    RunsBody run (first >>= next) before receiver method arguments ready rest := by
  obtain ⟨scope, hbinds, heq⟩ := h
  refine ⟨scope, hbinds, ?_⟩
  rw [← heq]
  change EStateM.bind first next before = _
  unfold EStateM.bind
  rw [hfirst]

end

/-! ## The kinds of calls -/

/-- The method that a comparison asks for first. -/
def asked : Relation → Special
  | .equal | .notEqual => .equal
  | .less | .lessOrEqual | .greater | .greaterOrEqual => .less

/-- What a comparison makes of the first answer.  What is not less may still be equal, so it may be
asked again. -/
def conclude (again : Run Bool) : Relation → Bool → Run Bool
  | .equal, answer | .less, answer => return answer
  | .notEqual, answer | .greaterOrEqual, answer => return !answer
  | .lessOrEqual, answer => if answer then return true else again
  | .greater, answer => if answer then return false else return !(← again)

/-- Every kind of call runs the body of the method in a scope that binds the receiver and the
arguments.  The nodes in it run with the fuel that is given, and the node that calls with one
more. -/
structure BindsCalls (classes : Classes) (fuel : Nat) : Prop where
  /-- Whoever calls a method with some values. -/
  call : ∀ {receiver name values state method},
    Means classes state.heap receiver name values.length method →
    RunsBody (execute classes fuel) (call classes (execute classes fuel) receiver name values)
      state receiver method values state pure
  /-- A method call: the values of its arguments, in their order. -/
  method : ∀ {receiver name arguments value values state found ready id method},
    execute classes fuel receiver state = .ok value found → value.instance? = some id →
    Means classes found.heap id name (List.length arguments) method →
    GiveAll (execute classes fuel) arguments found values ready →
    RunsBody (execute classes fuel) (execute classes (fuel + 1) (.call receiver name arguments))
      state id method values ready pure
  /-- A new instance: the values of its arguments, in their order.  What the body gives is
  dropped. -/
  construct : ∀ {cls arguments values state made ready id method},
    create cls state = .ok id made →
    Means classes made.heap id Special.construct.name (List.length arguments) method →
    GiveAll (execute classes fuel) arguments made values ready →
    RunsBody (execute classes fuel) (execute classes (fuel + 1) (.create cls arguments)) state id
      method values ready fun _ => pure (.own (.ofInstance id))
  /-- A sum: the value of the right operand. -/
  add : ∀ {left right first second state between after id method},
    execute classes fuel left state = .ok first between →
    execute classes fuel right between = .ok second after → first.instance? = some id →
    (∀ inner, second ≠ .returned inner) → Means classes after.heap id Special.add.name 1 method →
    RunsBody (execute classes fuel) (execute classes (fuel + 1) (.arithmetic .add left right))
      state id method [second] after pure
  /-- A comparison: the value of the right operand. -/
  comparison : ∀ {relation left right first second state between after id method},
    execute classes fuel left state = .ok first between →
    execute classes fuel right between = .ok second after → first.instance? = some id →
    Means classes after.heap id (asked relation).name 1 method →
    RunsBody (execute classes fuel) (execute classes (fuel + 1) (.comparison relation left right))
      state id method [second] after fun value => do
        makeFlag (← conclude (equal classes (execute classes fuel) first second) relation
          (← truth value))
  /-- Being equal, where it is asked once more: the right value. -/
  equal : ∀ {first second state id method}, first.instance? = some id →
    Means classes state.heap id Special.equal.name 1 method →
    RunsBody (execute classes fuel) (equal classes (execute classes fuel) first second) state id
      method [second] state truth
  /-- The text of a value: none.  What the body gives has the text of the value. -/
  text : ∀ {operand value state found id method depth}, fuel = depth + 1 →
    execute classes fuel operand state = .ok value found → value.instance? = some id →
    Means classes found.heap id Special.text.name 0 method →
    RunsBody (execute classes fuel) (execute classes (fuel + 1) (.stringify operand)) state id
      method [] found fun shown => do
        makeText (← display classes (execute classes fuel) depth shown)
  /-- Printing a value: none.  What the body gives is printed in the place of the value. -/
  print : ∀ {arguments sub value state substate found id method depth}, fuel = depth + 1 →
    Gets (Prints classes (execute classes fuel) fuel) arguments state sub substate →
    execute classes fuel sub substate = .ok value found → value.instance? = some id →
    Means classes found.heap id Special.text.name 0 method →
    ∃ others, sub :: others <:+ arguments ∧
      RunsBody (execute classes fuel) (execute classes (fuel + 1) (.print arguments)) state id
        method [] found fun shown => do
          printValue classes (execute classes fuel) .output () depth shown
          printMore classes (execute classes fuel) fuel others
          write "\n"
          return .empty
  /-- A value that is written in the place of another one, wherever to: none. -/
  written : ∀ {σ : Type} {stream : Stream σ} {held value state id method depth},
    value.instance? = some id → Means classes state.heap id Special.text.name 0 method →
    RunsBody (execute classes fuel)
      (printValue classes (execute classes fuel) stream held (depth + 1) value) state id method []
      state (printValue classes (execute classes fuel) stream held depth)
  /-- A value that has the text of another one: none. -/
  shown : ∀ {value state id method depth}, value.instance? = some id →
    Means classes state.heap id Special.text.name 0 method →
    RunsBody (execute classes fuel) (display classes (execute classes fuel) (depth + 1) value)
      state id method [] state (display classes (execute classes fuel) depth)

/-! ## Every kind of call -/

section

variable {state ready : State} {id : InstanceId} {value : Handle} {method : Method}

/-- An instance is asked for its text wherever it is written to. -/
theorem runsBody_printValue {σ : Type} (stream : Stream σ) (held : σ) (depth : Nat)
    (hinstance : value.instance? = some id)
    (hmethod : Means classes state.heap id Special.text.name 0 method) :
    RunsBody run (printValue classes run stream held (depth + 1) value) state id method [] state
      (printValue classes run stream held depth) := by
  refine .behind (inspect_of_instance? hinstance state) ?_
  dsimp only
  rw [printObject_succ]
  exact .behind (canCall_eq hmethod.hasMethod)
    (hmethod.runsBody_call.bind (printValue classes run stream held depth))

theorem runsBody_display (depth : Nat) (hinstance : value.instance? = some id)
    (hmethod : Means classes state.heap id Special.text.name 0 method) :
    RunsBody run (display classes run (depth + 1) value) state id method [] state
      (display classes run depth) := by
  have h := @runsBody_printValue classes run state id value method _ .buffer "" depth hinstance
    hmethod
  rw [← display_eq_printValue] at h
  have hrest : printValue classes run .buffer "" depth = display classes run depth :=
    funext fun shown => (display_eq_printValue depth shown).symm
  rwa [hrest] at h

/-- An instance is asked by its class whether it is equal. -/
theorem runsBody_equal {other : Handle} (hinstance : value.instance? = some id)
    (hmethod : Means classes state.heap id Special.equal.name 1 method) :
    RunsBody run (equal classes run value other) state id method [other] state truth :=
  .behind (inspect_of_instance? hinstance state) (hmethod.runsBody_call.bind truth)

theorem runsBody_less {other : Handle} (hinstance : value.instance? = some id)
    (hmethod : Means classes state.heap id Special.less.name 1 method) :
    RunsBody run (less classes run value other) state id method [other] state truth :=
  .behind (inspect_of_instance? hinstance state) (hmethod.runsBody_call.bind truth)

/-- Every comparison asks an instance once, and does with the answer what is its own. -/
theorem runsBody_compare (run : Node → Run Handle) (relation : Relation) (other : Handle)
    (hinstance : value.instance? = some id)
    (hmethod : Means classes state.heap id (asked relation).name 1 method) :
    RunsBody run (compare classes run relation value other) state id method [other] state
      (fun answer => truth answer >>= conclude (equal classes run value other) relation) := by
  have hself : (fun answer => truth answer >>= pure) = truth :=
    funext fun answer => bind_pure (truth answer)
  cases relation with
  | equal =>
      change RunsBody run _ state id method [other] state fun answer => truth answer >>= pure
      rw [hself]
      exact runsBody_equal hinstance hmethod
  | less =>
      change RunsBody run _ state id method [other] state fun answer => truth answer >>= pure
      rw [hself]
      exact runsBody_less hinstance hmethod
  | notEqual => exact (runsBody_equal hinstance hmethod).bind _
  | lessOrEqual | greater | greaterOrEqual => exact (runsBody_less hinstance hmethod).bind _

/-- A sum asks an instance for itself and the right operand. -/
theorem runsBody_add {other : Handle} (hinstance : value.instance? = some id)
    (hother : ∀ inner, other ≠ .returned inner)
    (hmethod : Means classes state.heap id Special.add.name 1 method) :
    RunsBody run (add classes run value other) state id method [other] state pure := by
  have hinspect : inspect other state = .ok other.object? state := by
    cases other with
    | returned inner => exact absurd rfl (hother inner)
    | empty | holding => rfl
  refine .behind (inspect_of_instance? hinstance state) (.behind hinspect ?_)
  exact .behind (canCall_eq hmethod.hasMethod) hmethod.runsBody_call

/-- Behind a blank, printing gets to an instance and asks it for its text. -/
theorem runsBody_printMore (state : State) {nodes : List Node} {sub : Node} {substate : State}
    {depth : Nat} (hgets : Gets (Prints classes run (depth + 1)) nodes
      { state with output := state.output ++ " " } sub substate)
    (hsub : run sub substate = .ok value ready) (hinstance : value.instance? = some id)
    (hmethod : Means classes ready.heap id Special.text.name 0 method) :
    ∃ others, sub :: others <:+ nodes ∧
      RunsBody run (printMore classes run (depth + 1) nodes) state id method [] ready
        (fun shown => do
          printValue classes run .output () depth shown
          printMore classes run (depth + 1) others) := by
  generalize hstart : { state with output := state.output ++ " " } = start at hgets
  induction hgets generalizing state with
  | @here sub others =>
      subst hstart
      refine ⟨others, List.suffix_rfl, .behind rfl (.behind hsub ?_)⟩
      exact (runsBody_printValue .output () depth hinstance hmethod).bind _
  | later hpasses _ ih =>
      subst hstart
      obtain ⟨before, found, text, shown, hvalue, htext, rfl⟩ := hpasses
      obtain ⟨others, hsuffix, hbody⟩ :=
        ih { shown with output := shown.output ++ text } hsub rfl
      refine ⟨others, hsuffix.trans (List.suffix_cons _ _), ?_⟩
      rw [printMore_cons]
      exact .behind rfl (.behind hvalue (.behind htext (.behind rfl hbody)))

/-- Printing gets to an instance and asks it for its text. -/
theorem runsBody_printLine {nodes : List Node} {sub : Node} {substate : State} {depth : Nat}
    (hgets : Gets (Prints classes run (depth + 1)) nodes state sub substate)
    (hsub : run sub substate = .ok value ready) (hinstance : value.instance? = some id)
    (hmethod : Means classes ready.heap id Special.text.name 0 method) :
    ∃ others, sub :: others <:+ nodes ∧
      RunsBody run (printLine classes run (depth + 1) nodes) state id method [] ready
        (fun shown => do
          printValue classes run .output () depth shown
          printMore classes run (depth + 1) others
          write "\n") := by
  cases hgets with
  | @here sub others =>
      refine ⟨others, List.suffix_rfl, .behind hsub ?_⟩
      exact (runsBody_printValue .output () depth hinstance hmethod).bind _
  | later hpasses hgets =>
      obtain ⟨before, found, text, shown, hvalue, htext, rfl⟩ := hpasses
      obtain ⟨others, hsuffix, hbody⟩ := runsBody_printMore
        { shown with output := shown.output ++ text } hgets hsub hinstance hmethod
      refine ⟨others, hsuffix.trans (List.suffix_cons _ _), ?_⟩
      rw [printLine_cons]
      have hline := hbody.bind fun _ => write "\n"
      simp only [bind_assoc] at hline
      exact .behind hvalue (.behind htext (.behind rfl hline))

end

/-- Whatever calls a method, the body starts in a scope that binds the receiver and the
arguments. -/
theorem bindsCalls (classes : Classes) (fuel : Nat) : BindsCalls classes fuel where
  call hmethod := hmethod.runsBody_call
  method hreceiver hinstance hmethod hvalues := by
    have hready := hmethod.of_giveAll hvalues
    exact .behind hreceiver (.behind (instanceOf?_of_instance? hinstance _)
      (.behind (canCall_eq hmethod.hasMethod) (.behind hvalues.runAll_eq hready.runsBody_call)))
  construct hmade hmethod hvalues := by
    have hready := hmethod.of_giveAll hvalues
    exact .behind hmade (.behind (canCall_eq hmethod.hasMethod)
      (.behind hvalues.runAll_eq (hready.runsBody_call.bind _)))
  add hleft hright hinstance hsecond hmethod :=
    .behind hleft (.behind hright (runsBody_add hinstance hsecond hmethod))
  comparison {relation _ _ _ second _ _ _ _ _} hleft hright hinstance hmethod := by
    have hbody := (runsBody_compare (execute classes fuel) relation second hinstance hmethod).bind
      makeFlag
    simp only [bind_assoc] at hbody
    exact .behind hleft (.behind hright hbody)
  equal hinstance hmethod := runsBody_equal hinstance hmethod
  text hfuel hoperand hinstance hmethod := by
    subst hfuel
    exact .behind hoperand ((runsBody_display _ hinstance hmethod).bind makeText)
  print hfuel hgets hsub hinstance hmethod := by
    subst hfuel
    obtain ⟨others, hsuffix, hbody⟩ := runsBody_printLine hgets hsub hinstance hmethod
    have hline := hbody.bind fun _ => (pure .empty : Run Handle)
    simp only [bind_assoc] at hline
    exact ⟨others, hsuffix, hline⟩
  written hinstance hmethod := runsBody_printValue _ _ _ hinstance hmethod
  shown hinstance hmethod := runsBody_display _ hinstance hmethod

end Run

end Offside
