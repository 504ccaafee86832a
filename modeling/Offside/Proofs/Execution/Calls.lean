import Offside.Proofs.Execution.Growth
import Offside.Proofs.Execution.Returning

/-!
# What runs inside of what

While a node runs, parts of it run, and methods are called.  `Run.Enters` says in which state
which part runs, and `Run.Calls` which methods are called, by the node itself and not by its parts:
by a method call, by making an instance, by a sum, by comparing, and by finding a text.
`Run.Reaches` is the chain of both: from a node to its parts and to the bodies of the methods that
it calls, and from there on.

Both relations follow the computations step by step, so what they say is bound to happen: whatever
stops early inside stops the whole (`Enters.stops`, `Calls.stops`, `Reaches.stops`).
-/

namespace Offside.Run

/-- A call of a method of an instance. -/
structure Invocation where
  receiver : InstanceId
  name : String
  arguments : List Handle
  /-- The state in which the receiver is asked for the method. -/
  state : State

/-- The receiver has a method of this name for so many arguments. -/
def Invocation.Resolves (classes : Classes) (invocation : Invocation) : Prop :=
  invocation.state.heap.hasMethod classes invocation.receiver invocation.name
    invocation.arguments.length = true

/-! ## Loops -/

/-- A loop over nodes gets to one of them, if it gets past those before. -/
inductive Gets (passes : Node → State → State → Prop) : List Node → State → Node → State → Prop
  | here {node : Node} {nodes : List Node} {state : State} :
      Gets passes (node :: nodes) state node state
  | later {node sub : Node} {nodes : List Node} {state between substate : State}
      (hpasses : passes node state between) (h : Gets passes nodes between sub substate) :
      Gets passes (node :: nodes) state sub substate

section

variable (classes : Classes) (run : Node → Run Handle) (fuel : Nat)

/-- The node gives a value. -/
def Passes (node : Node) (state after : State) : Prop :=
  ∃ value, run node state = .ok value after

/-- The node does not return. -/
def FallsThrough (node : Node) (state after : State) : Prop :=
  ∃ value, (∀ inner, value ≠ .returned inner) ∧ run node state = .ok value after

/-- The text of the node is written, and a blank behind it. -/
def Prints (node : Node) (state after : State) : Prop :=
  ∃ value found text shown, run node state = .ok value found ∧
    display classes run fuel value found = .ok text shown ∧
      after = { shown with output := shown.output ++ text ++ " " }

/-! ## Parts -/

/-- Running the node, which starts in one state, runs a part of it in the other state. -/
inductive Enters : Node → State → Node → State → Prop
  /-- All but a new instance begin with their first operand. -/
  | first {node sub : Node} {state : State} (hnode : ∀ cls arguments, node ≠ .create cls arguments)
      (hsub : node.operands.head? = some sub) : Enters node state sub state
  | arithmetic {operator : Arithmetic} {left right : Node} {state between : State} {value : Handle}
      (hleft : run left state = .ok value between) :
      Enters (.arithmetic operator left right) state right between
  | comparison {relation : Relation} {left right : Node} {state between : State} {value : Handle}
      (hleft : run left state = .ok value between) :
      Enters (.comparison relation left right) state right between
  | or {left right : Node} {state between : State} {value : Handle}
      (hleft : run left state = .ok value between)
      (htruth : truth value between = .ok false between) :
      Enters (.connective .or left right) state right between
  | and {left right : Node} {state between : State} {value : Handle}
      (hleft : run left state = .ok value between)
      (htruth : truth value between = .ok true between) :
      Enters (.connective .and left right) state right between
  | call {receiver sub : Node} {name : String} {arguments : List Node} {value : Handle}
      {state found substate : State} {id : InstanceId}
      (hreceiver : run receiver state = .ok value found)
      (hinstance : instanceOf? value found = .ok (some id) found)
      (hfits : found.heap.hasMethod classes id name arguments.length = true)
      (hsub : Gets (Passes run) arguments found sub substate) :
      Enters (.call receiver name arguments) state sub substate
  | create {cls : ClassId} {arguments : List Node} {sub : Node} {state made substate : State}
      {id : InstanceId} (hmade : create cls state = .ok id made)
      (hfits : made.heap.hasMethod classes id Special.construct.name arguments.length = true)
      (hsub : Gets (Passes run) arguments made sub substate) :
      Enters (.create cls arguments) state sub substate
  | assignField {object value : Node} {field : String} {target : Handle} {state found : State}
      {id : InstanceId} (hobject : run object state = .ok target found)
      (hinstance : instanceOf? target found = .ok (some id) found) :
      Enters (.assignField object field value) state value found
  | print {arguments : List Node} {sub : Node} {state substate : State}
      (hsub : Gets (Prints classes run fuel) arguments state sub substate) :
      Enters (.print arguments) state sub substate
  | block {statements : List Node} {sub : Node} {state substate : State}
      (hsub : Gets (FallsThrough run) statements state sub substate) :
      Enters (.block statements) state sub substate
  | body {block : Node} {state : State} : Enters (.body block) state block state
  | ifThen {condition consequent : Node} {state between : State} {value : Handle}
      (hcondition : run condition state = .ok value between)
      (htruth : truth value between = .ok true between) :
      Enters (.ifThen condition consequent) state consequent between
  | consequent {condition consequent alternative : Node} {state between : State} {value : Handle}
      (hcondition : run condition state = .ok value between)
      (htruth : truth value between = .ok true between) :
      Enters (.ifThenElse condition consequent alternative) state consequent between
  | alternative {condition consequent alternative : Node} {state between : State} {value : Handle}
      (hcondition : run condition state = .ok value between)
      (htruth : truth value between = .ok false between) :
      Enters (.ifThenElse condition consequent alternative) state alternative between

/-! ## Calls -/

/-- Finding the text of a value calls a method. -/
inductive Shows : Nat → Handle → State → Invocation → Prop
  | here {depth : Nat} {value : Handle} {state : State} {id : InstanceId}
      (hinstance : inspect value state = .ok (some (.ofInstance id)) state)
      (hfits : state.heap.hasMethod classes id Special.text.name 0 = true) :
      Shows (depth + 1) value state ⟨id, Special.text.name, [], state⟩
  /-- What the method gives has a text in turn. -/
  | later {depth : Nat} {value shown : Handle} {state after : State} {id : InstanceId}
      {invocation : Invocation}
      (hinstance : inspect value state = .ok (some (.ofInstance id)) state)
      (hfits : state.heap.hasMethod classes id Special.text.name 0 = true)
      (hcall : call classes run id Special.text.name [] state = .ok shown after)
      (h : Shows depth shown after invocation) : Shows (depth + 1) value state invocation

/-- Comparing two values calls a method, and nothing is asked about that before. -/
inductive Compares : Relation → Handle → Handle → State → Invocation → Prop
  | equal {relation : Relation} {left right : Handle} {state : State} {id : InstanceId}
      (hrelation : relation = .equal ∨ relation = .notEqual)
      (hinstance : inspect left state = .ok (some (.ofInstance id)) state) :
      Compares relation left right state ⟨id, Special.equal.name, [right], state⟩
  | less {relation : Relation} {left right : Handle} {state : State} {id : InstanceId}
      (hrelation : ¬ (relation = .equal ∨ relation = .notEqual))
      (hinstance : inspect left state = .ok (some (.ofInstance id)) state) :
      Compares relation left right state ⟨id, Special.less.name, [right], state⟩
  /-- What is not less may still be equal. -/
  | notLess {relation : Relation} {left right : Handle} {state after : State} {id : InstanceId}
      (hrelation : relation = .lessOrEqual ∨ relation = .greater)
      (hless : less classes run left right state = .ok false after)
      (hinstance : inspect left after = .ok (some (.ofInstance id)) after) :
      Compares relation left right state ⟨id, Special.equal.name, [right], after⟩

/-- Running the node, which starts in this state, makes this call. -/
inductive Calls : Node → State → Invocation → Prop
  | method {receiver : Node} {name : String} {arguments : List Node} {value : Handle}
      {values : List Handle} {state found ready : State} {id : InstanceId}
      (hreceiver : run receiver state = .ok value found)
      (hinstance : instanceOf? value found = .ok (some id) found)
      (hfits : found.heap.hasMethod classes id name arguments.length = true)
      (harguments : runAll run arguments found = .ok values ready) :
      Calls (.call receiver name arguments) state ⟨id, name, values, ready⟩
  | construct {cls : ClassId} {arguments : List Node} {values : List Handle}
      {state made ready : State} {id : InstanceId} (hmade : create cls state = .ok id made)
      (hfits : made.heap.hasMethod classes id Special.construct.name arguments.length = true)
      (harguments : runAll run arguments made = .ok values ready) :
      Calls (.create cls arguments) state ⟨id, Special.construct.name, values, ready⟩
  | add {left right : Node} {first second : Handle} {object : Option Object}
      {state between after : State} {id : InstanceId} (hleft : run left state = .ok first between)
      (hright : run right between = .ok second after)
      (hinstance : inspect first after = .ok (some (.ofInstance id)) after)
      (hobject : inspect second after = .ok object after)
      (hfits : after.heap.hasMethod classes id Special.add.name 1 = true) :
      Calls (.arithmetic .add left right) state ⟨id, Special.add.name, [second], after⟩
  | text {operand : Node} {value : Handle} {state found : State} {invocation : Invocation}
      (hoperand : run operand state = .ok value found)
      (hshows : Shows classes run fuel value found invocation) :
      Calls (.stringify operand) state invocation
  | print {arguments : List Node} {sub : Node} {value : Handle} {state substate found : State}
      {invocation : Invocation}
      (hsub : Gets (Prints classes run fuel) arguments state sub substate)
      (hvalue : run sub substate = .ok value found)
      (hshows : Shows classes run fuel value found invocation) :
      Calls (.print arguments) state invocation
  | comparison {relation : Relation} {left right : Node} {first second : Handle}
      {state between after : State} {invocation : Invocation}
      (hleft : run left state = .ok first between)
      (hright : run right between = .ok second after)
      (hcompares : Compares classes run relation first second after invocation) :
      Calls (.comparison relation left right) state invocation

end

/-! ## Chains -/

variable {classes : Classes} {run : Node → Run Handle} {fuel less : Nat} {α β : Type}
  {node sub : Node} {state substate after last : State} {reason : Stop} {invocation : Invocation}

/-- While the node runs, with this fuel and from this state, another one runs, with less fuel and
from a state of its own. -/
inductive Reaches (classes : Classes) (less : Nat) (sub : Node) (substate : State) :
    Nat → Node → State → Prop
  | here : Reaches classes less sub substate less sub substate
  | part {fuel : Nat} {node part : Node} {state between : State}
      (h : Enters classes (execute classes fuel) fuel node state part between)
      (hrest : Reaches classes less sub substate fuel part between) :
      Reaches classes less sub substate (fuel + 1) node state
  | body {fuel : Nat} {node : Node} {state : State} {invocation : Invocation} {method : Method}
      (h : Calls classes (execute classes fuel) fuel node state invocation)
      (hmethod : methodOf? classes invocation.state.heap invocation.receiver invocation.name =
        some method)
      (hlength : method.parameters.length = invocation.arguments.length)
      (hrest : Reaches classes less sub substate fuel method.body { invocation.state with
        scope := frame invocation.receiver method.parameters invocation.arguments }) :
      Reaches classes less sub substate (fuel + 1) node state

/-! ## What stops inside stops the whole -/

/-- Computations in sequence stop if the first one stops, or else the one behind it. -/
theorem bind_eq_error_iff {first : Run α} {next : α → Run β} :
    (first >>= next) state = .error reason after ↔
      first state = .error reason after ∨ ∃ value between, first state = .ok value between ∧
        next value between = .error reason after := by
  change EStateM.bind first next state = .error reason after ↔ _
  unfold EStateM.bind
  cases hfirst : first state with
  | ok value between =>
      constructor
      · intro h
        exact .inr ⟨value, between, rfl, h⟩
      · rintro (h | ⟨_, _, hvalue, hnext⟩)
        · cases h
        · cases hvalue
          exact hnext
  | error cause between =>
      constructor
      · intro h
        cases h
        exact .inl rfl
      · rintro (h | ⟨_, _, hvalue, -⟩)
        · cases h
          rfl
        · cases hvalue

/-- The computation stops for this reason, wherever. -/
def Stops (reason : Stop) (computation : Run α) (state : State) : Prop :=
  ∃ after, computation state = .error reason after

/-- The call stops for this reason. -/
def Invocation.Stops (classes : Classes) (run : Node → Run Handle) (reason : Stop)
    (invocation : Invocation) : Prop :=
  Run.Stops reason (call classes run invocation.receiver invocation.name invocation.arguments)
    invocation.state

theorem Stops.bind {first : Run α} {next : α → Run β} (h : Stops reason first state) :
    Stops reason (first >>= next) state := by
  obtain ⟨after, h⟩ := h
  exact ⟨after, bind_eq_error_iff.mpr (.inl h)⟩

theorem Stops.next {first : Run α} {next : α → Run β} {value : α}
    (hfirst : first state = .ok value after) (h : Stops reason (next value) after) :
    Stops reason (first >>= next) state := by
  obtain ⟨last, h⟩ := h
  exact ⟨last, bind_eq_error_iff.mpr (.inr ⟨value, after, hfirst, h⟩)⟩

theorem instanceOf?_of_instance? {value : Handle} {id : InstanceId}
    (h : value.instance? = some id) (state : State) :
    instanceOf? value state = .ok (some id) state := by
  cases value with
  | empty => cases h
  | returned inner => cases h
  | holding object owning => exact congrArg (EStateM.Result.ok · state) h

theorem inspect_of_instance? {value : Handle} {id : InstanceId}
    (h : value.instance? = some id) (state : State) :
    inspect value state = .ok (some (.ofInstance id)) state := by
  cases value with
  | empty | returned => cases h
  | holding object owning =>
      cases object with
      | ofInstance other =>
          cases h
          rfl
      | number | text | flag | ofClass => cases h

theorem canCall_eq {id : InstanceId} {name : String} {arity : Nat}
    (h : state.heap.hasMethod classes id name arity = true) :
    canCall classes id name arity state = .ok true state :=
  congrArg (EStateM.Result.ok · state) h

namespace Gets

variable {nodes : List Node}

theorem stops_runAll (h : Gets (Passes run) nodes state sub substate)
    (hsub : Stops reason (run sub) substate) : Stops reason (runAll run nodes) state := by
  induction h with
  | here => exact hsub.bind
  | later hpasses _ ih =>
      obtain ⟨value, hvalue⟩ := hpasses
      exact .next hvalue (ih hsub).bind

theorem stops_sequence (h : Gets (FallsThrough run) nodes state sub substate)
    (hsub : Stops reason (run sub) substate) : Stops reason (sequence run nodes) state := by
  induction h with
  | here => exact hsub.bind
  | later hpasses _ ih =>
      obtain ⟨value, hvalue, hrun⟩ := hpasses
      refine .next hrun ?_
      cases value with
      | returned inner => exact absurd rfl (hvalue inner)
      | empty => exact ih hsub
      | holding object owning => exact ih hsub

/-- The loop is entered behind a blank. -/
theorem stops_printMore
    (h : Gets (Prints classes run fuel) nodes { state with output := state.output ++ " " } sub
      substate)
    (hsub : Stops reason (do display classes run fuel (← run sub)) substate) :
    Stops reason (printMore classes run fuel nodes) state := by
  generalize hstart : { state with output := state.output ++ " " } = start at h
  induction h generalizing state with
  | here =>
      subst hstart
      rw [printMore_cons, ← bind_assoc (run _)]
      exact .next rfl hsub.bind
  | later hpasses _ ih =>
      subst hstart
      obtain ⟨value, found, text, shown, hvalue, htext, rfl⟩ := hpasses
      rw [printMore_cons]
      exact .next rfl (.next hvalue (.next htext (.next rfl (ih hsub rfl))))

theorem stops_printLine (h : Gets (Prints classes run fuel) nodes state sub substate)
    (hsub : Stops reason (do display classes run fuel (← run sub)) substate) :
    Stops reason (printLine classes run fuel nodes) state := by
  cases h with
  | here =>
      rw [printLine_cons, ← bind_assoc (run _)]
      exact hsub.bind
  | later hpasses h =>
      obtain ⟨value, found, text, shown, hvalue, htext, rfl⟩ := hpasses
      rw [printLine_cons]
      exact .next hvalue (.next htext (.next rfl (stops_printMore h hsub).bind))

end Gets

/-- What stops in a part of a node stops the node. -/
theorem Enters.stops (h : Enters classes (execute classes fuel) fuel node state sub substate)
    (hsub : Stops reason (execute classes fuel sub) substate) :
    Stops reason (execute classes (fuel + 1) node) state := by
  cases h with
  | first hnode hhead =>
      cases node with
      | number | text | flag | absent | «variable» | block | body | classDefinition => cases hhead
      | create cls arguments => exact absurd rfl (hnode cls arguments)
      | print arguments =>
          cases arguments with
          | nil => cases hhead
          | cons node nodes =>
              cases hhead
              exact (Gets.stops_printLine .here hsub.bind).bind
      | connective word left right =>
          cases hhead
          cases word <;> exact hsub.bind
      | arithmetic | negation | comparison | stringify | call | assign | assignField | giveBack
      | ifThen | ifThenElse =>
          cases hhead
          exact hsub.bind
  | arithmetic hleft => exact .next hleft hsub.bind
  | comparison hleft => exact .next hleft hsub.bind
  | or hleft htruth => exact .next hleft (.next htruth hsub.bind)
  | and hleft htruth => exact .next hleft (.next htruth hsub.bind)
  | call hreceiver hinstance hfits hgets =>
      exact .next hreceiver (.next hinstance (.next (canCall_eq hfits)
        (hgets.stops_runAll hsub).bind))
  | create hmade hfits hgets =>
      exact .next hmade (.next (canCall_eq hfits) (hgets.stops_runAll hsub).bind)
  | assignField hobject hinstance => exact .next hobject (.next hinstance hsub.bind)
  | print hgets => exact (hgets.stops_printLine hsub.bind).bind
  | block hgets => exact hgets.stops_sequence hsub
  | body => exact hsub.bind
  | ifThen hcondition htruth => exact .next hcondition (.next htruth hsub)
  | consequent hcondition htruth => exact .next hcondition (.next htruth hsub)
  | alternative hcondition htruth => exact .next hcondition (.next htruth hsub)

theorem Shows.stops {depth : Nat} {value : Handle}
    (h : Shows classes run depth value state invocation)
    (hcall : invocation.Stops classes run reason) :
    Stops reason (display classes run depth value) state := by
  induction h with
  | here hinstance hfits =>
      rw [display_eq]
      exact .next hinstance (.next (canCall_eq hfits) hcall.bind)
  | later hinstance hfits hshown _ ih =>
      rw [display_eq]
      exact .next hinstance (.next (canCall_eq hfits) (.next hshown (ih hcall)))

theorem stops_equal {left right : Handle} {id : InstanceId}
    (hinstance : inspect left state = .ok (some (.ofInstance id)) state)
    (hcall : (Invocation.mk id Special.equal.name [right] state).Stops classes run reason) :
    Stops reason (equal classes run left right) state :=
  .next hinstance hcall.bind

theorem stops_less {left right : Handle} {id : InstanceId}
    (hinstance : inspect left state = .ok (some (.ofInstance id)) state)
    (hcall : (Invocation.mk id Special.less.name [right] state).Stops classes run reason) :
    Stops reason (Run.less classes run left right) state :=
  .next hinstance hcall.bind

theorem Compares.stops {relation : Relation} {left right : Handle}
    (h : Compares classes run relation left right state invocation)
    (hcall : invocation.Stops classes run reason) :
    Stops reason (compare classes run relation left right) state := by
  cases h with
  | equal hrelation hinstance =>
      have hequal := stops_equal hinstance hcall
      obtain rfl | rfl := hrelation
      · exact hequal
      · exact hequal.bind
  | less hrelation hinstance =>
      have hless := stops_less hinstance hcall
      cases relation with
      | equal => exact absurd (.inl rfl) hrelation
      | notEqual => exact absurd (.inr rfl) hrelation
      | less => exact hless
      | lessOrEqual | greater | greaterOrEqual => exact hless.bind
  | notLess hrelation hless hinstance =>
      have hequal := stops_equal hinstance hcall
      obtain rfl | rfl := hrelation
      · exact .next hless hequal
      · exact .next hless hequal.bind

/-- What stops in a call that a node makes stops the node. -/
theorem Calls.stops (h : Calls classes (execute classes fuel) fuel node state invocation)
    (hcall : invocation.Stops classes (execute classes fuel) reason) :
    Stops reason (execute classes (fuel + 1) node) state := by
  cases h with
  | method hreceiver hinstance hfits harguments =>
      exact .next hreceiver (.next hinstance (.next (canCall_eq hfits) (.next harguments hcall)))
  | construct hmade hfits harguments =>
      exact .next hmade (.next (canCall_eq hfits) (.next harguments hcall.bind))
  | add hleft hright hinstance hobject hfits =>
      exact .next hleft (.next hright (.next hinstance (.next hobject
        (.next (canCall_eq hfits) hcall))))
  | text hoperand hshows => exact .next hoperand (hshows.stops hcall).bind
  | print hgets hvalue hshows =>
      exact (hgets.stops_printLine (.next hvalue (hshows.stops hcall))).bind
  | comparison hleft hright hcompares =>
      exact .next hleft (.next hright (hcompares.stops hcall).bind)

/-- What stops in the body of a method stops the call. -/
theorem Invocation.stops_body {method : Method}
    (hmethod : methodOf? classes invocation.state.heap invocation.receiver invocation.name =
      some method) (hlength : method.parameters.length = invocation.arguments.length)
    (hbody : Run.Stops reason (run method.body) { invocation.state with
      scope := frame invocation.receiver method.parameters invocation.arguments }) :
    invocation.Stops classes run reason := by
  obtain ⟨after, hafter⟩ := hbody
  refine ⟨{ after with scope := invocation.state.scope }, ?_⟩
  simp only [call, hmethod, hlength, if_pos, within, hafter]

/-- Whatever stops on the way stops the node that it started from. -/
theorem Reaches.stops (h : Reaches classes less sub substate fuel node state)
    (hsub : Stops reason (execute classes less sub) substate) :
    Stops reason (execute classes fuel node) state := by
  induction h with
  | here => exact hsub
  | part hpart _ ih => exact hpart.stops ih
  | body hcalls hmethod hlength _ ih =>
      exact hcalls.stops (Invocation.stops_body hmethod hlength ih)

end Offside.Run
