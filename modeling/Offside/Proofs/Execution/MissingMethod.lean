import Offside.Proofs.Execution.Calls
import Offside.Proofs.Permanence

/-!
# Methods that are missing

A call asks for a method and stops if there is none that fits.  Everything that calls makes sure of
that before, except comparing (`Run.missingMethod_iff`).

If a node stops because a method is missing, then a part of it does, or a call that it makes
(`Run.Traces`); this is shown for every computation.  So one can go down along
`Run.Reaches`, and the fuel gets less on the way: at the end is a call that stops by itself.  Where
it was made sure that there is a method, arguments may have run since, but instances keep their
classes (`State.Extends`), so the method is still there.
-/

namespace Offside

/-- A method is missing. -/
def Stop.IsMissing : Stop → Prop
  | fault (.missingMethod ..) => True
  | _ => False

/-- Whatever is there later still has the method. -/
theorem State.Extends.hasMethod {before after : State} (h : before.Extends after)
    {classes : Classes} {id : InstanceId} {name : String} {arity : Nat}
    (hmethod : before.heap.hasMethod classes id name arity = true) :
    after.heap.hasMethod classes id name arity = true := by
  unfold Heap.hasMethod at hmethod ⊢
  cases hcls : before.heap.classOf? id with
  | none =>
      rw [hcls] at hmethod
      cases hmethod
  | some cls =>
      rw [hcls] at hmethod
      rw [h.class? id cls hcls]
      exact hmethod

namespace Run

variable {classes : Classes} {run : Node → Run Handle} {fuel : Nat} {α β : Type}
  {node : Node} {state after : State} {reason : Stop} {invocation : Invocation}
  {enters : Node → State → Prop} {calls : Invocation → Prop}

/-! ## Tracing -/

/-- If the computation stops for this reason, then one of these nodes does, or one of these
calls. -/
def Traces (classes : Classes) (run : Node → Run Handle) (reason : Stop)
    (enters : Node → State → Prop) (calls : Invocation → Prop) (computation : Run α)
    (state : State) : Prop :=
  Stops reason computation state →
    (∃ sub substate, enters sub substate ∧ Stops reason (run sub) substate) ∨
      ∃ invocation, calls invocation ∧ invocation.Stops classes run reason

theorem Traces.pure (value : α) :
    Traces classes run reason enters calls (Pure.pure value) state := by
  rintro ⟨after, h⟩
  cases h

theorem Traces.bind {first : Run α} {next : α → Run β}
    (hfirst : Traces classes run reason enters calls first state)
    (hnext : ∀ value between, first state = .ok value between →
      Traces classes run reason enters calls (next value) between) :
    Traces classes run reason enters calls (first >>= next) state := by
  rintro ⟨after, h⟩
  obtain hstops | ⟨value, between, hvalue, hstops⟩ := bind_eq_error_iff.mp h
  · exact hfirst ⟨after, hstops⟩
  · exact hnext value between hvalue ⟨after, hstops⟩

/-- After something was only asked, the state is as before. -/
theorem Traces.asks {first : Run α} {next : α → Run β} (hasks : Asks first)
    (hfirst : Traces classes run reason enters calls first state)
    (hnext : ∀ value, first state = .ok value state →
      Traces classes run reason enters calls (next value) state) :
    Traces classes run reason enters calls (first >>= next) state := by
  refine hfirst.bind fun value between hvalue => ?_
  obtain ⟨found, heq⟩ | ⟨cause, heq⟩ := hasks state
  · cases heq.symm.trans hvalue
    exact hnext value hvalue
  · cases heq.symm.trans hvalue

theorem traces_run (h : enters node state) :
    Traces classes run reason enters calls (run node) state :=
  fun hstops => .inl ⟨node, state, h, hstops⟩

theorem traces_call {receiver : InstanceId} {name : String} {values : List Handle}
    (h : calls ⟨receiver, name, values, state⟩) :
    Traces classes run reason enters calls (call classes run receiver name values) state :=
  fun hstops => .inr ⟨_, h, hstops⟩

/-- Nothing is traced in a computation that always gives a value. -/
theorem traces_of_ok {computation : Run α}
    (h : ∃ value after, computation state = .ok value after) :
    Traces classes run reason enters calls computation state := by
  rintro ⟨last, hlast⟩
  obtain ⟨value, after, hvalue⟩ := h
  cases hvalue.symm.trans hlast

theorem traces_create (cls : ClassId) :
    Traces classes run reason enters calls (create cls) state :=
  traces_of_ok ⟨_, _, rfl⟩

theorem traces_write (text : String) :
    Traces classes run reason enters calls (write text) state :=
  traces_of_ok ⟨_, _, rfl⟩

section

variable (hreason : reason.IsMissing)
include hreason

theorem traces_stop {cause : Stop} (hcause : ¬ cause.IsMissing) :
    Traces classes run reason enters calls (stop cause : Run α) state := by
  rintro ⟨after, h⟩
  cases h
  exact absurd hreason hcause

theorem traces_fail {fault : RunFault} (hfault : ¬ (Stop.fault fault).IsMissing) :
    Traces classes run reason enters calls (fail fault : Run α) state :=
  traces_stop hreason hfault

theorem traces_inspect (value : Handle) :
    Traces classes run reason enters calls (inspect value) state := by
  cases value with
  | empty => exact .pure _
  | holding object owning => exact .pure _
  | returned inner => exact traces_stop hreason id

theorem traces_instanceOf? (value : Handle) :
    Traces classes run reason enters calls (instanceOf? value) state :=
  (traces_inspect hreason value).bind fun _ _ _ => .pure _

theorem traces_truth (value : Handle) :
    Traces classes run reason enters calls (truth value) state :=
  (traces_inspect hreason value).bind fun _ _ _ => .pure _

theorem traces_number? (value : Handle) :
    Traces classes run reason enters calls (number? value) state := by
  refine (traces_inspect hreason value).bind fun found _ _ => ?_
  split <;> exact .pure _

theorem traces_follow (value : Handle) (fields : List String) :
    Traces classes run reason enters calls (follow value fields) state := by
  induction fields generalizing value state with
  | nil => exact .pure _
  | cons field fields ih =>
      refine (traces_instanceOf? hreason value).bind fun found between _ => ?_
      cases found with
      | none => exact traces_fail hreason id
      | some id =>
          refine (traces_of_ok ?_).bind fun next after _ => ih next
          unfold readField
          split <;> exact ⟨_, _, rfl⟩

theorem traces_lookup (name : String) (fields : List String) :
    Traces classes run reason enters calls (lookup name fields) state := by
  intro hstops
  unfold Stops lookup at hstops
  cases hvalue : state.scope.get? name with
  | none =>
      rw [hvalue] at hstops
      exact traces_fail hreason (id : ¬ (Stop.fault (.unknownVariable name)).IsMissing) hstops
  | some value =>
      rw [hvalue] at hstops
      exact traces_follow hreason value fields hstops

/-! ## Texts -/

theorem traces_displayPlain (object : Object) :
    Traces classes run reason enters calls (displayPlain classes object) state := by
  cases object with
  | number origin value =>
      rw [displayPlain]
      cases Decimal.write? value with
      | some text => exact .pure _
      | none => exact traces_stop hreason id
  | text | flag | ofClass => exact .pure _
  | ofInstance id => exact traces_of_ok ⟨_, _, rfl⟩

/-- The calls that finding a text makes are all that may stop it. -/
theorem traces_display (depth : Nat) (value : Handle)
    (h : ∀ invocation, Shows classes run depth value state invocation → calls invocation) :
    Traces classes run reason enters calls (display classes run depth value) state := by
  induction depth using Nat.strongRecOn generalizing value state with
  | ind depth ih =>
      rw [display_eq]
      refine .asks (asks_inspect value) (traces_inspect hreason value) fun found hfound => ?_
      split
      · exact .pure _
      · rename_i id
        refine .asks (asks_canCall id _ 0) (traces_of_ok ⟨_, _, rfl⟩) fun answer hanswer => ?_
        split
        · rename_i hcan
          have hfits : state.heap.hasMethod classes id Special.text.name 0 = true := by
            cases hanswer
            exact hcan
          cases depth with
          | zero => exact traces_stop hreason not_false
          | succ depth =>
              refine (traces_call (h _ (.here hfound hfits))).bind fun shown after hshown => ?_
              exact ih depth (Nat.lt_succ_self depth) shown fun invocation hshows =>
                h invocation (.later hfound hfits hshown hshows)
        · exact traces_displayPlain hreason _
      · exact traces_displayPlain hreason _

/-! ## Comparisons -/

theorem traces_incomparable (question : Question) (left right : Option Object) :
    Traces classes run reason enters calls (incomparable classes question left right : Run α)
      state := by
  intro hstops
  unfold Stops incomparable at hstops
  obtain ⟨after, hstops⟩ := hstops
  split at hstops
  all_goals
    cases hstops
    exact hreason.elim

theorem traces_equal {left right : Handle}
    (h : ∀ id, inspect left state = .ok (some (.ofInstance id)) state →
      calls ⟨id, Special.equal.name, [right], state⟩) :
    Traces classes run reason enters calls (equal classes run left right) state := by
  refine .asks (asks_inspect left) (traces_inspect hreason left) fun found hfound => ?_
  split
  · exact (traces_call (h _ hfound)).bind fun answer _ _ => traces_truth hreason answer
  · refine (traces_inspect hreason right).bind fun second _ _ => ?_
    split <;> first | exact .pure _ | exact traces_incomparable hreason _ _ _

theorem traces_less {left right : Handle}
    (h : ∀ id, inspect left state = .ok (some (.ofInstance id)) state →
      calls ⟨id, Special.less.name, [right], state⟩) :
    Traces classes run reason enters calls (less classes run left right) state := by
  refine .asks (asks_inspect left) (traces_inspect hreason left) fun found hfound => ?_
  split
  · exact (traces_call (h _ hfound)).bind fun answer _ _ => traces_truth hreason answer
  · refine (traces_inspect hreason right).bind fun second _ _ => ?_
    split <;> first | exact .pure _ | exact traces_incomparable hreason _ _ _

theorem traces_compare {relation : Relation} {left right : Handle}
    (h : ∀ invocation, Compares classes run relation left right state invocation →
      calls invocation) :
    Traces classes run reason enters calls (compare classes run relation left right) state := by
  have hequal (hrelation : relation = .equal ∨ relation = .notEqual) :
      Traces classes run reason enters calls (equal classes run left right) state :=
    traces_equal hreason fun id hinstance => h _ (.equal hrelation hinstance)
  have hless (hrelation : ¬ (relation = .equal ∨ relation = .notEqual)) :
      Traces classes run reason enters calls (less classes run left right) state :=
    traces_less hreason fun id hinstance => h _ (.less hrelation hinstance)
  have hnotLess (hrelation : relation = .lessOrEqual ∨ relation = .greater) {after : State}
      (hresult : less classes run left right state = .ok false after) :
      Traces classes run reason enters calls (equal classes run left right) after :=
    traces_equal hreason fun id hinstance => h _ (.notLess hrelation hresult hinstance)
  cases relation with
  | equal => exact hequal (.inl rfl)
  | notEqual => exact (hequal (.inr rfl)).bind fun _ _ _ => .pure _
  | less => exact hless (by simp)
  | greaterOrEqual => exact (hless (by simp)).bind fun _ _ _ => .pure _
  | lessOrEqual =>
      refine (hless (by simp)).bind fun answer after hanswer => ?_
      cases answer with
      | true => exact .pure _
      | false => exact hnotLess (.inl rfl) hanswer
  | greater =>
      refine (hless (by simp)).bind fun answer after hanswer => ?_
      cases answer with
      | true => exact .pure _
      | false => exact (hnotLess (.inr rfl) hanswer).bind fun _ _ _ => .pure _

/-! ## Loops -/

omit hreason in
theorem traces_runAll {nodes : List Node}
    (h : ∀ sub substate, Gets (Passes run) nodes state sub substate → enters sub substate) :
    Traces classes run reason enters calls (runAll run nodes) state := by
  induction nodes generalizing state with
  | nil => exact .pure _
  | cons node nodes ih =>
      refine (traces_run (h _ _ .here)).bind fun value between hvalue => ?_
      refine (ih fun sub substate hgets => h _ _ (.later ⟨value, hvalue⟩ hgets)).bind
        fun values _ _ => .pure _

omit hreason in
theorem traces_sequence {nodes : List Node}
    (h : ∀ sub substate, Gets (FallsThrough run) nodes state sub substate →
      enters sub substate) :
    Traces classes run reason enters calls (sequence run nodes) state := by
  induction nodes generalizing state with
  | nil => exact .pure _
  | cons node nodes ih =>
      refine (traces_run (h _ _ .here)).bind fun value between hvalue => ?_
      have hrest (hfalls : ∀ inner, value ≠ .returned inner) :
          Traces classes run reason enters calls (sequence run nodes) between :=
        ih fun sub substate hgets => h _ _ (.later ⟨value, hfalls, hvalue⟩ hgets)
      cases value with
      | returned inner => exact .pure _
      | empty => exact hrest nofun
      | holding object owning => exact hrest nofun

/-- What becomes of a node that is printed, and of the line behind it. -/
theorem traces_printed {rest : Run α}
    (hrun : enters node state)
    (hshows : ∀ value found invocation, run node state = .ok value found →
      Shows classes run fuel value found invocation → calls invocation)
    (hrest : ∀ value found text shown, run node state = .ok value found →
      display classes run fuel value found = .ok text shown →
      Traces classes run reason enters calls rest { shown with output := shown.output ++ text }) :
    Traces classes run reason enters calls
      (do write (← display classes run fuel (← run node)); rest) state := by
  refine (traces_run hrun).bind fun value found hvalue => ?_
  refine (traces_display hreason fuel value fun invocation hcall =>
    hshows value found invocation hvalue hcall).bind fun text shown htext => ?_
  refine (traces_write text).bind fun _ after hwrite => ?_
  cases hwrite
  exact hrest value found text shown hvalue htext

theorem traces_printMore {nodes : List Node}
    (henters : ∀ sub substate, Gets (Prints classes run fuel) nodes
      { state with output := state.output ++ " " } sub substate → enters sub substate)
    (hcalls : ∀ sub substate value found invocation, Gets (Prints classes run fuel) nodes
      { state with output := state.output ++ " " } sub substate →
      run sub substate = .ok value found → Shows classes run fuel value found invocation →
      calls invocation) :
    Traces classes run reason enters calls (printMore classes run fuel nodes) state := by
  induction nodes generalizing state with
  | nil => exact .pure _
  | cons node nodes ih =>
      rw [printMore_cons]
      refine (traces_write " ").bind fun _ blank hblank => ?_
      cases hblank
      refine traces_printed hreason (henters _ _ .here) (fun value found invocation =>
        hcalls _ _ value found invocation .here) fun value found text shown hvalue htext => ?_
      have hprints : Prints classes run fuel node _ _ :=
        ⟨value, found, text, shown, hvalue, htext, rfl⟩
      exact ih (fun sub substate hgets => henters _ _ (.later hprints hgets))
        fun sub substate value found invocation hgets => hcalls _ _ _ _ _ (.later hprints hgets)

theorem traces_printLine {nodes : List Node}
    (henters : ∀ sub substate, Gets (Prints classes run fuel) nodes state sub substate →
      enters sub substate)
    (hcalls : ∀ sub substate value found invocation,
      Gets (Prints classes run fuel) nodes state sub substate →
      run sub substate = .ok value found → Shows classes run fuel value found invocation →
      calls invocation) :
    Traces classes run reason enters calls (printLine classes run fuel nodes) state := by
  cases nodes with
  | nil => exact traces_write "\n"
  | cons node nodes =>
      rw [printLine_cons]
      refine traces_printed hreason (henters _ _ .here) (fun value found invocation =>
        hcalls _ _ value found invocation .here) fun value found text shown hvalue htext => ?_
      have hprints : Prints classes run fuel node _ _ :=
        ⟨value, found, text, shown, hvalue, htext, rfl⟩
      refine (traces_printMore hreason
        (fun sub substate hgets => henters _ _ (.later hprints hgets))
        fun sub substate value found invocation hgets =>
          hcalls _ _ _ _ _ (.later hprints hgets)).bind fun _ _ _ => traces_write "\n"

/-! ## Nodes -/

/-- What follows a condition. -/
theorem traces_condition {condition : Node} {next : Bool → Run α}
    (hcondition : enters condition state)
    (hnext : ∀ value between answer, run condition state = .ok value between →
      truth value between = .ok answer between →
      Traces classes run reason enters calls (next answer) between) :
    Traces classes run reason enters calls (do next (← truth (← run condition))) state := by
  refine (traces_run hcondition).bind fun value between hvalue => ?_
  exact .asks (asks_truth value) (traces_truth hreason value) fun answer hanswer =>
    hnext value between answer hvalue hanswer

theorem traces_add {left right : Handle}
    (h : ∀ id object, inspect left state = .ok (some (.ofInstance id)) state →
      inspect right state = .ok object state →
      state.heap.hasMethod classes id Special.add.name 1 = true →
      calls ⟨id, Special.add.name, [right], state⟩) :
    Traces classes run reason enters calls (add classes run left right) state := by
  refine .asks (asks_inspect left) (traces_inspect hreason left) fun first hfirst => ?_
  refine .asks (asks_inspect right) (traces_inspect hreason right) fun second hsecond => ?_
  split
  · exact traces_of_ok ⟨_, _, rfl⟩
  · exact traces_of_ok ⟨_, _, rfl⟩
  · refine .asks (asks_canCall _ _ 1) (traces_of_ok ⟨_, _, rfl⟩) fun answer hanswer => ?_
    split
    · rename_i hcan
      refine traces_call (h _ _ hfirst hsecond ?_)
      cases hanswer
      exact hcan
    · exact traces_fail hreason not_false
  · exact traces_fail hreason not_false

theorem traces_onNumbers (operator : Arithmetic) (combine : Int → Int → Int) (left right : Handle) :
    Traces classes run reason enters calls (onNumbers operator combine left right) state := by
  refine (traces_number? hreason left).bind fun first _ _ => ?_
  refine (traces_number? hreason right).bind fun second _ _ => ?_
  split
  · exact traces_of_ok ⟨_, _, rfl⟩
  · exact traces_fail hreason not_false

theorem traces_divide (left right : Handle) :
    Traces classes run reason enters calls (divide left right) state := by
  refine (traces_number? hreason right).bind fun divisor _ _ => ?_
  split
  · exact traces_fail hreason not_false
  · split
    · exact traces_fail hreason not_false
    · refine (traces_number? hreason left).bind fun dividend _ _ => ?_
      split
      · exact traces_fail hreason not_false
      · exact traces_of_ok ⟨_, _, rfl⟩

end

/-- If a node stops because a method is missing, then a part of it does, or a call that it
makes. -/
theorem traces_execute (hreason : reason.IsMissing) (fuel : Nat) (node : Node) (state : State) :
    Traces classes (execute classes fuel) reason
      (Enters classes (execute classes fuel) fuel node state)
      (Calls classes (execute classes fuel) fuel node state)
      (execute classes (fuel + 1) node) state := by
  cases node with
  | number | text | flag | absent => exact .pure _
  | «variable» name fields => exact traces_lookup hreason name fields
  | classDefinition cls => exact traces_of_ok ⟨_, _, rfl⟩
  | arithmetic operator left right =>
      refine (traces_run (.first nofun rfl)).bind fun first between hleft => ?_
      refine (traces_run (.arithmetic hleft)).bind fun second after hright => ?_
      cases operator with
      | add =>
          exact traces_add hreason fun id object hinstance hobject hfits =>
            .add hleft hright hinstance hobject hfits
      | subtract => exact traces_onNumbers hreason .subtract _ first second
      | multiply => exact traces_onNumbers hreason .multiply _ first second
      | divide => exact traces_divide hreason first second
  | connective word left right =>
      have hmake (flag : Bool) {between : State} : Traces classes (execute classes fuel) reason
          (Enters classes (execute classes fuel) fuel (.connective word left right) state)
          (Calls classes (execute classes fuel) fuel (.connective word left right) state)
          (makeFlag flag) between :=
        traces_of_ok ⟨_, _, rfl⟩
      cases word with
      | or =>
          refine traces_condition hreason (.first nofun rfl)
            fun value between answer hleft hanswer => ?_
          cases answer with
          | true => exact hmake true
          | false =>
              exact traces_condition hreason (.or hleft hanswer) fun _ _ answer _ _ => hmake answer
      | and =>
          refine traces_condition hreason (.first nofun rfl)
            fun value between answer hleft hanswer => ?_
          cases answer with
          | true =>
              exact traces_condition hreason (.and hleft hanswer) fun _ _ answer _ _ => hmake answer
          | false => exact hmake false
  | negation operand =>
      exact traces_condition hreason (.first nofun rfl) fun _ _ _ _ _ => traces_of_ok ⟨_, _, rfl⟩
  | comparison relation left right =>
      refine (traces_run (.first nofun rfl)).bind fun first between hleft => ?_
      refine (traces_run (.comparison hleft)).bind fun second after hright => ?_
      exact (traces_compare hreason fun invocation hcompares =>
        .comparison hleft hright hcompares).bind fun _ _ _ => traces_of_ok ⟨_, _, rfl⟩
  | stringify operand =>
      refine (traces_run (.first nofun rfl)).bind fun value found hvalue => ?_
      exact (traces_display hreason fuel value fun invocation hshows =>
        .text hvalue hshows).bind fun _ _ _ => traces_of_ok ⟨_, _, rfl⟩
  | call receiver name arguments =>
      refine (traces_run (.first nofun rfl)).bind fun value found hvalue => ?_
      refine .asks (asks_instanceOf? value) (traces_instanceOf? hreason value)
        fun target hinstance => ?_
      cases target with
      | none => exact .pure _
      | some id =>
          refine .asks (asks_canCall id name _) (traces_of_ok ⟨_, _, rfl⟩) fun answer hanswer => ?_
          split
          · rename_i hcan
            have hfits : found.heap.hasMethod classes id name arguments.length = true := by
              cases hanswer
              exact hcan
            refine (traces_runAll fun sub substate hgets =>
              .call hvalue hinstance hfits hgets).bind fun values ready hvalues => ?_
            exact traces_call (.method hvalue hinstance hfits hvalues)
          · exact .pure _
  | create cls arguments =>
      refine (traces_create cls).bind fun id made hmade => ?_
      refine .asks (asks_canCall _ _ _) (traces_of_ok ⟨_, _, rfl⟩) fun answer hanswer => ?_
      split
      · rename_i hcan
        have hfits : made.heap.hasMethod classes id Special.construct.name arguments.length =
            true := by
          cases hanswer
          exact hcan
        refine (traces_runAll fun sub substate hgets => .create hmade hfits hgets).bind
          fun values ready hvalues => ?_
        exact (traces_call (.construct hmade hfits hvalues)).bind fun _ _ _ => .pure _
      · exact .pure _
  | assign name value =>
      refine (traces_run (.first nofun rfl)).bind fun handle after _ => ?_
      exact traces_of_ok ⟨_, _, rfl⟩
  | assignField object field value =>
      refine (traces_run (.first nofun rfl)).bind fun target found htarget => ?_
      refine .asks (asks_instanceOf? target) (traces_instanceOf? hreason target)
        fun target hinstance => ?_
      cases target with
      | none => exact traces_fail hreason not_false
      | some id =>
          refine (traces_run (.assignField htarget hinstance)).bind fun handle ready _ => ?_
          exact traces_of_ok ⟨_, _, rfl⟩
  | print arguments =>
      exact (traces_printLine hreason (fun sub substate hgets => .print hgets)
        fun sub substate value found invocation hgets hvalue hshows =>
          .print hgets hvalue hshows).bind fun _ _ _ => .pure _
  | block statements => exact traces_sequence fun sub substate hgets => .block hgets
  | giveBack value => exact (traces_run (.first nofun rfl)).bind fun _ _ _ => .pure _
  | body block =>
      refine (traces_run .body).bind fun value after _ => ?_
      cases value <;> exact .pure _
  | ifThen condition consequent =>
      refine traces_condition hreason (.first nofun rfl)
        fun value between answer hcondition hanswer => ?_
      cases answer with
      | true => exact traces_run (.ifThen hcondition hanswer)
      | false => exact .pure _
  | ifThenElse condition consequent alternative =>
      refine traces_condition hreason (.first nofun rfl)
        fun value between answer hcondition hanswer => ?_
      cases answer with
      | true => exact traces_run (.consequent hcondition hanswer)
      | false => exact traces_run (.alternative hcondition hanswer)

/-! ## Calls that fail by themselves -/

theorem hasMethod_iff {heap : Heap} {id : InstanceId} {name : String} {arity : Nat} :
    heap.hasMethod classes id name arity = true ↔
      ∃ method, methodOf? classes heap id name = some method ∧
        method.parameters.length = arity := by
  unfold Heap.hasMethod methodOf? Classes.hasMethod
  cases heap.classOf? id with
  | none => simp
  | some cls => cases hresolve : classes.resolve cls name <;> simp [hresolve]

/-- A call stops if there is no method that fits, and then it says so, or if the method stops. -/
theorem Invocation.stops_iff : invocation.Stops classes run reason ↔
    (¬ invocation.Resolves classes ∧ reason = .fault (.missingMethod
      (invocation.state.heap.className classes invocation.receiver) invocation.name
      invocation.arguments.length)) ∨
    ∃ method, methodOf? classes invocation.state.heap invocation.receiver invocation.name =
        some method ∧ method.parameters.length = invocation.arguments.length ∧
      Run.Stops reason (run method.body) { invocation.state with
        scope := frame invocation.receiver method.parameters invocation.arguments } := by
  unfold Invocation.Stops Invocation.Resolves
  rw [hasMethod_iff]
  constructor
  · rintro ⟨after, hafter⟩
    unfold call at hafter
    cases hmethod : methodOf? classes invocation.state.heap invocation.receiver
        invocation.name with
    | none =>
        rw [hmethod] at hafter
        cases hafter
        exact .inl ⟨by simp, rfl⟩
    | some method =>
        rw [hmethod] at hafter
        dsimp only at hafter
        split at hafter
        · rename_i hlength
          refine .inr ⟨method, rfl, hlength, ?_⟩
          unfold within at hafter
          split at hafter
          · cases hafter
          · rename_i hbody
            cases hafter
            exact ⟨_, hbody⟩
        · rename_i hlength
          cases hafter
          exact .inl ⟨by simpa using hlength, rfl⟩
  · rintro (⟨hnone, rfl⟩ | ⟨method, hmethod, hlength, hbody⟩)
    · refine ⟨invocation.state, ?_⟩
      unfold call
      cases hmethod : methodOf? classes invocation.state.heap invocation.receiver
          invocation.name with
      | none => rfl
      | some method => exact if_neg fun hlength => hnone ⟨method, hmethod, hlength⟩
    · exact Invocation.stops_body hmethod hlength hbody

theorem length_of_runAll {nodes : List Node} {values : List Handle}
    (h : runAll run nodes state = .ok values after) : values.length = nodes.length := by
  induction nodes generalizing state values with
  | nil =>
      cases h
      rfl
  | cons node nodes ih =>
      obtain ⟨value, between, -, hrest⟩ := bind_eq_ok_iff.mp h
      obtain ⟨others, last, hothers, hvalues⟩ := bind_eq_ok_iff.mp hrest
      cases hvalues
      exact congrArg (· + 1) (ih hothers)

/-- Arguments are run while everything else only grows. -/
theorem extends_of_runAll {nodes : List Node} {values : List Handle}
    (h : runAll (execute classes fuel) nodes state = .ok values after) : state.Extends after := by
  have hclasses : classes.LiteralsIn Set.univ := fun _ _ _ _ _ _ _ _ _ => trivial
  have hnodes : ∀ node ∈ nodes, node.LiteralsIn Set.univ := fun _ _ _ _ _ _ => trivial
  obtain ⟨later, hgrows, -⟩ :=
    (onlyAdds_runAll (adds_execute hclasses fuel) hnodes state.isIn_univ).of_leaves
      (.inl ⟨values, h⟩)
  exact hgrows.state

theorem Shows.resolves {depth : Nat} {value : Handle}
    (h : Shows classes run depth value state invocation) : invocation.Resolves classes := by
  induction h with
  | here _ hfits => exact hfits
  | later _ _ _ _ ih => exact ih

/-- Whatever calls a method has made sure that there is one, unless it compares.  The method is
there still when it is called, even if arguments have run since. -/
theorem Calls.resolves (h : Calls classes (execute classes fuel) fuel node state invocation)
    (hnode : ∀ relation left right, node ≠ .comparison relation left right) :
    invocation.Resolves classes := by
  cases h with
  | method _ _ hfits harguments =>
      unfold Invocation.Resolves
      rw [length_of_runAll harguments]
      exact (extends_of_runAll harguments).hasMethod hfits
  | construct _ hfits harguments =>
      unfold Invocation.Resolves
      rw [length_of_runAll harguments]
      exact (extends_of_runAll harguments).hasMethod hfits
  | add _ _ _ _ hfits => exact hfits
  | text _ hshows => exact hshows.resolves
  | print _ _ hshows => exact hshows.resolves
  | comparison => exact absurd rfl (hnode _ _ _)

/-- Comparing asks for one of two methods, with the right operand as its argument. -/
theorem Calls.of_comparison {relation : Relation} {left right : Node}
    (h : Calls classes run fuel (.comparison relation left right) state invocation) :
    ∃ special id opposite found, (special = Special.equal ∨ special = .less) ∧
      invocation = ⟨id, special.name, [opposite], found⟩ := by
  cases h with
  | comparison _ _ hcompares =>
      cases hcompares with
      | equal | notLess => exact ⟨.equal, _, _, _, .inl rfl, rfl⟩
      | less => exact ⟨.less, _, _, _, .inr rfl, rfl⟩

/-! ## Where a method is missing -/

/-- While the node runs, two values are compared of which the left one is an instance, and its
class has no method of one parameter that says how it compares.  The name of the class and what it
lacks are these. -/
inductive Unanswered (classes : Classes) (fuel : Nat) (node : Node) (state : State) :
    String → String → Nat → Prop
  | intro {less : Nat} {relation : Relation} {left right : Node} {substate found : State}
      {special : Special} {id : InstanceId} {opposite : Handle}
      (hreaches : Reaches classes (less + 1) (.comparison relation left right) substate fuel node
        state)
      (hcalls : Calls classes (execute classes less) less (.comparison relation left right)
        substate ⟨id, special.name, [opposite], found⟩)
      (hspecial : special = .equal ∨ special = .less)
      (hlacks : found.heap.hasMethod classes id special.name 1 = false) :
      Unanswered classes fuel node state (found.heap.className classes id) special.name 1

/-- Only comparing stops because a method is missing. -/
theorem unanswered_of_stops {cls name : String} {arity : Nat}
    (h : Stops (.fault (.missingMethod cls name arity)) (execute classes fuel node) state) :
    Unanswered classes fuel node state cls name arity := by
  induction fuel generalizing node state with
  | zero =>
      obtain ⟨after, h⟩ := h
      cases h
  | succ fuel ih =>
      have hreason : (Stop.fault (.missingMethod cls name arity)).IsMissing := trivial
      obtain ⟨sub, substate, henters, hsub⟩ | ⟨invocation, hcalls, hstops⟩ :=
        traces_execute hreason fuel node state h
      · obtain ⟨hreaches, hcalls, hspecial, hlacks⟩ := ih hsub
        exact ⟨.part henters hreaches, hcalls, hspecial, hlacks⟩
      · obtain ⟨hlacks, hfault⟩ | ⟨method, hmethod, hlength, hbody⟩ :=
          Invocation.stops_iff.mp hstops
        · -- whatever does not compare has a method
          cases node with
          | comparison relation left right =>
              obtain ⟨special, id, opposite, found, hspecial, rfl⟩ := hcalls.of_comparison
              cases hfault
              exact ⟨.here, hcalls, hspecial, Bool.eq_false_iff.mpr hlacks⟩
          | _ => exact absurd (hcalls.resolves nofun) hlacks
        · obtain ⟨hreaches, hinner, hspecial, hlacks⟩ := ih hbody
          exact ⟨.body hcalls hmethod hlength hreaches, hinner, hspecial, hlacks⟩

theorem Unanswered.stops {cls name : String} {arity : Nat}
    (h : Unanswered classes fuel node state cls name arity) :
    Stops (.fault (.missingMethod cls name arity)) (execute classes fuel node) state := by
  obtain ⟨hreaches, hcalls, -, hlacks⟩ := h
  exact hreaches.stops (hcalls.stops (Invocation.stops_iff.mpr
    (.inl ⟨Bool.eq_false_iff.mp hlacks, rfl⟩)))

/-- Running any tree from any state stops because a method is missing exactly if somewhere in it
two values are compared, the left one is an instance, and its class has no method of one parameter
for it; so it is `__eq__` or `__lt__` that is missing, with one argument.  All other calls, that of
a method call, of making an instance, of a sum and of finding a text, have their method at the
moment of the call, whatever has run since it was looked for. -/
theorem missingMethod_iff (classes : Classes) (fuel : Nat) (node : Node) (state : State) :
    (∀ cls name arity,
      (Stops (.fault (.missingMethod cls name arity)) (execute classes fuel node) state ↔
        Unanswered classes fuel node state cls name arity) ∧
      (Unanswered classes fuel node state cls name arity →
        (name = "__eq__" ∨ name = "__lt__") ∧ arity = 1)) ∧
      ∀ less sub substate invocation,
        Reaches classes (less + 1) sub substate fuel node state →
        Calls classes (execute classes less) less sub substate invocation →
        (∀ relation left right, sub ≠ .comparison relation left right) →
        ∃ method, methodOf? classes invocation.state.heap invocation.receiver invocation.name =
            some method ∧ method.parameters.length = invocation.arguments.length := by
  refine ⟨fun cls name arity => ⟨⟨unanswered_of_stops, Unanswered.stops⟩, fun h => ?_⟩,
    fun less sub substate invocation _ hcalls hsub => hasMethod_iff.mp (hcalls.resolves hsub)⟩
  obtain ⟨-, -, hspecial, -⟩ := h
  obtain rfl | rfl := hspecial
  · exact ⟨.inl rfl, rfl⟩
  · exact ⟨.inr rfl, rfl⟩

/-- One class, without methods. -/
def bareClass : Classes :=
  Classes.empty.declare "A" none

/-- An instance of that class, as a variable. -/
def bareState : State :=
  ⟨{ Heap.empty with instances := #[⟨0, .empty⟩] }, ⟨[("x", .share (.ofInstance 0))]⟩, ""⟩

/-- An instance is compared whose class says nothing about it. -/
theorem missingMethod_iff_sample :
    Unanswered bareClass 2 (.comparison .equal (.variable "x" []) .absent) bareState
        "A" "__eq__" 1 ∧
      Stops (.fault (.missingMethod "A" "__eq__" 1))
        (execute bareClass 2 (.comparison .equal (.variable "x" []) .absent)) bareState := by
  have hunanswered : Unanswered bareClass 2 (.comparison .equal (.variable "x" []) .absent)
      bareState (bareState.heap.className bareClass 0) Special.equal.name 1 :=
    ⟨.here, .comparison rfl rfl (.equal (.inl rfl) rfl), .inl rfl, by decide +kernel⟩
  exact ⟨hunanswered, ((missingMethod_iff bareClass 2 _ _).1 "A" "__eq__" 1).1.mpr hunanswered⟩

end Run

end Offside
