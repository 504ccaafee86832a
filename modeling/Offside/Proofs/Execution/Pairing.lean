import Mathlib.Data.List.Forall2
import Offside.Proofs.Execution.Streams

/-!
# Two runs side by side

`Run.Coincide related good computation other` says of two computations: whenever they start in
states that are related, either both give values, which are `good` for one another, or both stop
for the same reason, and the states that they leave are related again.  `Coincide.bind` puts
computations in sequence.

A `Pairing` consists of a relation on states and one on values that the primitive computations
keep: those that read and write states, and those that make objects.  All other computations then
keep the relations too, with one lemma for each of them.  The two runs need neither have the same
nodes nor the same class table; it is enough that literals and methods are related.  The
computations take `run`, which runs nodes; `Pairing.Follows` is what they need to know about it,
and `Pairing.execute_follows` shows it of every amount of fuel, by induction on the fuel.
-/

namespace Offside

variable {α β : Type}

/-! ## Two computations -/

namespace Run

/-- Two computations ended in the same way: with values that are good for one another, or for the
same reason. -/
inductive Paired (related : State → State → Prop) {α : Type} (good : α → α → Prop) :
    EStateM.Result Stop State α → EStateM.Result Stop State α → Prop
  | ok {value other : α} {state after : State} (hvalue : good value other)
      (hstate : related state after) : Paired related good (.ok value state) (.ok other after)
  | error (reason : Stop) {state after : State} (hstate : related state after) :
      Paired related good (.error reason state) (.error reason after)

/-- From states that are related, the computations end in the same way, and the states that they
leave are related again. -/
def Coincide (related : State → State → Prop) {α : Type} (good : α → α → Prop)
    (computation other : Run α) : Prop :=
  ∀ state twin, related state twin → Paired related good (computation state) (other twin)

variable {related : State → State → Prop}

theorem Coincide.pure {good : α → α → Prop} {value other : α} (h : good value other) :
    Coincide related good (Pure.pure value) (Pure.pure other) :=
  fun _ _ hstate => .ok h hstate

/-- Computations in sequence coincide if each of them does. -/
theorem Coincide.bind {good : α → α → Prop} {better : β → β → Prop} {first other : Run α}
    {next later : α → Run β} (hfirst : Coincide related good first other)
    (hnext : ∀ value twin, good value twin → Coincide related better (next value) (later twin)) :
    Coincide related better (first >>= next) (other >>= later) := by
  intro state twin hstate
  have hpaired := hfirst state twin hstate
  change Paired related better (EStateM.bind first next state) (EStateM.bind other later twin)
  unfold EStateM.bind
  generalize first state = one, other twin = two at hpaired ⊢
  cases hpaired with
  | ok hvalue hbetween => exact hnext _ _ hvalue _ _ hbetween
  | error reason hbetween => exact .error reason hbetween

theorem coincide_stop {good : α → α → Prop} (reason : Stop) :
    Coincide related good (stop reason) (stop reason) :=
  fun _ _ hstate => .error reason hstate

theorem coincide_fail {good : α → α → Prop} (fault : RunFault) :
    Coincide related good (fail fault) (fail fault) :=
  fun _ _ hstate => .error (.fault fault) hstate

end Run

/-! ## What is related -/

/-- Objects that differ in their origins at most. -/
inductive Object.Alike : Object → Object → Prop
  | number (origin twin : Origin) (value : Int) : Alike (.number origin value) (.number twin value)
  | text (origin twin : Origin) (content : String) :
      Alike (.text origin content) (.text twin content)
  | flag (origin twin : Origin) (value : Bool) : Alike (.flag origin value) (.flag twin value)
  | ofClass (id : ClassId) : Alike (.ofClass id) (.ofClass id)
  | ofInstance (id : InstanceId) : Alike (.ofInstance id) (.ofInstance id)

namespace Object.Alike

variable {object twin : Object} (h : object.Alike twin)
include h

theorem instance?_eq : object.instance? = twin.instance? := by
  cases h <;> rfl

theorem isTrue_eq : object.isTrue = twin.isTrue := by
  cases h <;> rfl

end Object.Alike

/-- Values of one kind: both are empty, or both hold objects that are alike, or both are on their
way out and what they hold is related. -/
inductive Handle.OneKind (related : Handle → Handle → Prop) : Handle → Handle → Prop
  | empty : OneKind related .empty .empty
  | holding {object twin : Object} (owning mark : Bool) (h : object.Alike twin) :
      OneKind related (.holding object owning) (.holding twin mark)
  | returned {value twin : Handle} (h : related value twin) :
      OneKind related (.returned value) (.returned twin)

/-- Trees that differ in their literals at most, and these are related. -/
inductive Node.Alike (literals : Object → Object → Prop) : Node → Node → Prop
  | number {origin twin : Origin} {value other : Int}
      (h : literals (.number origin value) (.number twin other)) :
      Alike literals (.number origin value) (.number twin other)
  | text {origin twin : Origin} {content other : String}
      (h : literals (.text origin content) (.text twin other)) :
      Alike literals (.text origin content) (.text twin other)
  | flag {origin twin : Origin} {value other : Bool}
      (h : literals (.flag origin value) (.flag twin other)) :
      Alike literals (.flag origin value) (.flag twin other)
  | absent : Alike literals .absent .absent
  | «variable» (name : String) (fields : List String) :
      Alike literals (.variable name fields) (.variable name fields)
  | arithmetic (operator : Arithmetic) {left right first second : Node}
      (hleft : Alike literals left first) (hright : Alike literals right second) :
      Alike literals (.arithmetic operator left right) (.arithmetic operator first second)
  | connective (word : Connective) {left right first second : Node}
      (hleft : Alike literals left first) (hright : Alike literals right second) :
      Alike literals (.connective word left right) (.connective word first second)
  | negation {operand twin : Node} (h : Alike literals operand twin) :
      Alike literals (.negation operand) (.negation twin)
  | comparison (relation : Relation) {left right first second : Node}
      (hleft : Alike literals left first) (hright : Alike literals right second) :
      Alike literals (.comparison relation left right) (.comparison relation first second)
  | stringify {operand twin : Node} (h : Alike literals operand twin) :
      Alike literals (.stringify operand) (.stringify twin)
  | call (name : String) {receiver twin : Node} {arguments others : List Node}
      (hreceiver : Alike literals receiver twin)
      (harguments : List.Forall₂ (Alike literals) arguments others) :
      Alike literals (.call receiver name arguments) (.call twin name others)
  | create (cls : ClassId) {arguments others : List Node}
      (h : List.Forall₂ (Alike literals) arguments others) :
      Alike literals (.create cls arguments) (.create cls others)
  | assign (name : String) {value twin : Node} (h : Alike literals value twin) :
      Alike literals (.assign name value) (.assign name twin)
  | assignField (field : String) {object other value twin : Node}
      (hobject : Alike literals object other) (hvalue : Alike literals value twin) :
      Alike literals (.assignField object field value) (.assignField other field twin)
  | print {arguments others : List Node} (h : List.Forall₂ (Alike literals) arguments others) :
      Alike literals (.print arguments) (.print others)
  | block {statements others : List Node} (h : List.Forall₂ (Alike literals) statements others) :
      Alike literals (.block statements) (.block others)
  | giveBack {value twin : Node} (h : Alike literals value twin) :
      Alike literals (.giveBack value) (.giveBack twin)
  | body {block twin : Node} (h : Alike literals block twin) :
      Alike literals (.body block) (.body twin)
  | ifThen {condition consequent other twin : Node} (hcondition : Alike literals condition other)
      (hconsequent : Alike literals consequent twin) :
      Alike literals (.ifThen condition consequent) (.ifThen other twin)
  | ifThenElse {condition consequent alternative other twin last : Node}
      (hcondition : Alike literals condition other) (hconsequent : Alike literals consequent twin)
      (halternative : Alike literals alternative last) :
      Alike literals (.ifThenElse condition consequent alternative) (.ifThenElse other twin last)
  | classDefinition (cls : ClassId) : Alike literals (.classDefinition cls) (.classDefinition cls)

/-- Methods with the same parameters and related bodies. -/
structure Method.Related (nodes : Node → Node → Prop) (method twin : Method) : Prop where
  parameters : method.parameters = twin.parameters
  body : nodes method.body twin.body

/-- Class tables with the same names of classes in which names mean related methods. -/
structure Classes.Related (nodes : Node → Node → Prop) (classes others : Classes) : Prop where
  nameOf : classes.nameOf = others.nameOf
  resolve : ∀ id name, Option.Rel (Method.Related nodes) (classes.resolve id name)
    (others.resolve id name)

open Run

/-- A relation on states and one on values that the primitive computations keep. -/
structure Pairing where
  states : State → State → Prop
  values : Handle → Handle → Prop
  oneKind : ∀ {value twin}, values value twin → Handle.OneKind values value twin
  empty : values .empty .empty
  returned : ∀ {value twin}, values value twin → values (.returned value) (.returned twin)
  ofClass : ∀ cls, values (.own (.ofClass cls)) (.own (.ofClass cls))
  ofInstance : ∀ id, values (.own (.ofInstance id)) (.own (.ofInstance id))
  classOf? : ∀ {state twin}, states state twin → ∀ id,
    state.heap.classOf? id = twin.heap.classOf? id
  address : ∀ {state twin}, states state twin → state.heap.address = twin.heap.address
  bound : ∀ {state twin}, states state twin → ∀ name,
    Option.Rel values (state.scope.get? name) (twin.scope.get? name)
  write : ∀ text, Coincide states Eq (write text) (write text)
  assign : ∀ name {value twin}, values value twin →
    Coincide states Eq (assign name value) (assign name twin)
  assignField : ∀ id field {value twin}, values value twin →
    Coincide states Eq (assignField id field value) (assignField id field twin)
  readField : ∀ id field, Coincide states values (readField id field) (readField id field)
  makeNumber : ∀ value, Coincide states values (makeNumber value) (makeNumber value)
  makeText : ∀ content, Coincide states values (makeText content) (makeText content)
  makeFlag : ∀ value, Coincide states values (makeFlag value) (makeFlag value)
  create : ∀ cls, Coincide states Eq (create cls) (create cls)
  /-- Bodies of methods start in related states. -/
  enter : ∀ {state twin}, states state twin → ∀ receiver parameters {arguments others},
    List.Forall₂ values arguments others →
    states { state with scope := frame receiver parameters arguments }
      { twin with scope := frame receiver parameters others }
  /-- Calls come back to the scopes in which they were made. -/
  leave : ∀ {state twin after last}, states state twin → states after last →
    states { after with scope := state.scope } { last with scope := twin.scope }

namespace Pairing

/-- Literals whose values are related. -/
def Literals (pairing : Pairing) (object twin : Object) : Prop :=
  pairing.values (.share object) (.share twin)

/-- Running related nodes comes to related ends. -/
def Follows (pairing : Pairing) (nodes : Node → Node → Prop) (run later : Node → Run Handle) :
    Prop :=
  ∀ ⦃node twin : Node⦄, nodes node twin →
    Coincide pairing.states pairing.values (run node) (later twin)

variable {pairing : Pairing} {nodes : Node → Node → Prop} {classes others : Classes}
  {run later : Node → Run Handle}

/-! ## Asking a value -/

section

variable {value other : Handle} (h : pairing.values value other)
include h

theorem coincide_inspect :
    Coincide pairing.states (Option.Rel Object.Alike) (inspect value) (inspect other) := by
  cases pairing.oneKind h with
  | empty => exact .pure .none
  | holding _ _ hobject => exact .pure (.some hobject)
  | returned _ => exact coincide_stop _

theorem coincide_instanceOf? :
    Coincide pairing.states Eq (instanceOf? value) (instanceOf? other) := by
  refine (coincide_inspect h).bind fun found twin hfound => ?_
  cases hfound with
  | none => exact .pure rfl
  | some hobject => exact .pure hobject.instance?_eq

theorem coincide_truth : Coincide pairing.states Eq (truth value) (truth other) := by
  refine (coincide_inspect h).bind fun found twin hfound => ?_
  cases hfound with
  | none => exact .pure rfl
  | some hobject => exact .pure hobject.isTrue_eq

theorem coincide_number? : Coincide pairing.states Eq (number? value) (number? other) := by
  refine (coincide_inspect h).bind fun found twin hfound => ?_
  cases hfound with
  | none => exact .pure rfl
  | some hobject => cases hobject <;> exact .pure rfl

end

/-! ## Variables -/

theorem coincide_follow {value other : Handle} (h : pairing.values value other)
    (fields : List String) :
    Coincide pairing.states pairing.values (follow value fields) (follow other fields) := by
  induction fields generalizing value other with
  | nil => exact .pure h
  | cons field fields ih =>
      refine (coincide_instanceOf? h).bind fun found _ hfound => ?_
      subst hfound
      cases found with
      | none => exact coincide_fail _
      | some id => exact (pairing.readField id field).bind fun _ _ hnext => ih hnext

theorem coincide_lookup (name : String) (fields : List String) :
    Coincide pairing.states pairing.values (lookup name fields) (lookup name fields) := by
  intro state twin hstate
  have hvalue := pairing.bound hstate name
  unfold lookup
  generalize state.scope.get? name = one, twin.scope.get? name = two at hvalue ⊢
  cases hvalue with
  | none => exact coincide_fail _ _ _ hstate
  | some hfound => exact coincide_follow hfound fields _ _ hstate

/-! ## Names and methods -/

section

variable (hclasses : classes.Related nodes others)
include hclasses

theorem className_eq {state twin : State} (h : pairing.states state twin) (id : InstanceId) :
    state.heap.className classes id = twin.heap.className others id := by
  rw [Heap.className, Heap.className, pairing.classOf? h id, hclasses.nameOf]

theorem methodOf?_related {state twin : State} (h : pairing.states state twin)
    (id : InstanceId) (name : String) :
    Option.Rel (Method.Related nodes) (methodOf? classes state.heap id name)
      (methodOf? others twin.heap id name) := by
  unfold methodOf?
  rw [pairing.classOf? h id]
  cases twin.heap.classOf? id with
  | none => exact .none
  | some cls => exact hclasses.resolve cls name

theorem coincide_canCall (id : InstanceId) (name : String) (arity : Nat) :
    Coincide pairing.states Eq (canCall classes id name arity)
      (canCall others id name arity) := by
  intro state twin hstate
  refine .ok ?_ hstate
  have hmethods (cls : ClassId) :
      classes.hasMethod cls name arity = others.hasMethod cls name arity := by
    have hmethod := hclasses.resolve cls name
    unfold Classes.hasMethod
    generalize classes.resolve cls name = one, others.resolve cls name = two at hmethod ⊢
    cases hmethod with
    | none => rfl
    | some hmethod => simp only [hmethod.parameters]
  simp only [Heap.hasMethod, pairing.classOf? hstate id, hmethods]

theorem coincide_displayPlain {object other : Object} (h : object.Alike other) :
    Coincide pairing.states Eq (displayPlain classes object) (displayPlain others other) := by
  intro state twin hstate
  cases h with
  | number _ _ value =>
      rw [displayPlain, displayPlain]
      cases Decimal.write? value with
      | some text => exact .ok rfl hstate
      | none => exact .error _ hstate
  | text _ _ content => exact .ok rfl hstate
  | flag _ _ value => exact .ok rfl hstate
  | ofClass id => exact .ok (congrArg ("Class " ++ · id) hclasses.nameOf) hstate
  | ofInstance id =>
      refine .ok ?_ hstate
      unfold anonymousText
      rw [className_eq hclasses hstate id, pairing.address hstate]

theorem describeAny_eq {state after : State} (hstate : pairing.states state after)
    {found twin : Option Object} (h : Option.Rel Object.Alike found twin) :
    Object.describeAny classes state.heap found = Object.describeAny others after.heap twin := by
  cases h with
  | none => rfl
  | some hobject =>
      cases hobject with
      | number | text | flag => rfl
      | ofClass id => simp only [Object.describeAny, Object.describe, hclasses.nameOf]
      | ofInstance id =>
          simp only [Object.describeAny, Object.describe, className_eq hclasses hstate id]

theorem coincide_incomparable {good : α → α → Prop} (question : Question)
    {first other second twin : Option Object} (hfirst : Option.Rel Object.Alike first other)
    (hsecond : Option.Rel Object.Alike second twin) :
    Coincide pairing.states good (incomparable classes question first second)
      (incomparable others question other twin) := by
  intro state after hstate
  unfold incomparable
  rw [describeAny_eq hclasses hstate hfirst, describeAny_eq hclasses hstate hsecond]
  split
  · exact .error _ hstate
  · exact .error _ hstate
  · exact coincide_fail _ _ _ hstate

end

/-! ## Calls -/

section

variable (hclasses : classes.Related nodes others) (hrun : pairing.Follows nodes run later)
include hclasses hrun

theorem coincide_call (receiver : InstanceId) (name : String) {values twins : List Handle}
    (h : List.Forall₂ pairing.values values twins) :
    Coincide pairing.states pairing.values (call classes run receiver name values)
      (call others later receiver name twins) := by
  intro state twin hstate
  have hmethods := methodOf?_related hclasses hstate receiver name
  unfold call
  rw [← className_eq hclasses hstate receiver, ← h.length_eq]
  generalize methodOf? classes state.heap receiver name = one,
    methodOf? others twin.heap receiver name = two at hmethods ⊢
  cases hmethods with
  | none => exact coincide_fail _ _ _ hstate
  | @some method other hmethod =>
      dsimp only
      rw [← hmethod.parameters]
      split
      · have hbody := hrun hmethod.body _ _ (pairing.enter hstate receiver method.parameters h)
        unfold within
        generalize run method.body _ = result, later other.body _ = outcome at hbody ⊢
        cases hbody with
        | ok hvalue hafter => exact .ok hvalue (pairing.leave hstate hafter)
        | error reason hafter => exact .error reason (pairing.leave hstate hafter)
      · exact coincide_fail _ _ _ hstate

omit hclasses in
theorem coincide_runAll {ones twins : List Node} (h : List.Forall₂ nodes ones twins) :
    Coincide pairing.states (List.Forall₂ pairing.values) (runAll run ones)
      (runAll later twins) := by
  induction h with
  | nil => exact .pure .nil
  | cons hnode _ ih =>
      refine (hrun hnode).bind fun value twin hvalue => ?_
      exact ih.bind fun values twins hvalues => .pure (.cons hvalue hvalues)

/-! ## Texts and comparisons -/

theorem coincide_display (fuel : Nat) {value other : Handle} (h : pairing.values value other) :
    Coincide pairing.states Eq (display classes run fuel value)
      (display others later fuel other) := by
  induction fuel using Nat.strongRecOn generalizing value other with
  | ind fuel ih =>
      rw [display_eq, display_eq]
      refine (coincide_inspect h).bind fun found twin hfound => ?_
      cases hfound with
      | none => exact .pure rfl
      | some hobject =>
          cases hobject with
          | number origin twin value =>
              exact coincide_displayPlain hclasses (.number origin twin value)
          | text origin twin content =>
              exact coincide_displayPlain hclasses (.text origin twin content)
          | flag origin twin value => exact coincide_displayPlain hclasses (.flag origin twin value)
          | ofClass id => exact coincide_displayPlain hclasses (.ofClass id)
          | ofInstance id =>
              refine (coincide_canCall hclasses id _ 0).bind fun answer _ hanswer => ?_
              subst hanswer
              split
              · cases fuel with
                | zero => exact coincide_stop _
                | succ fuel =>
                    exact (coincide_call hclasses hrun id _ .nil).bind fun _ _ hshown =>
                      ih fuel (Nat.lt_succ_self fuel) hshown
              · exact coincide_displayPlain hclasses (.ofInstance id)

theorem coincide_askClass (id : InstanceId) (special : Special) {value other : Handle}
    (h : pairing.values value other) :
    Coincide pairing.states Eq (askClass classes run id special value)
      (askClass others later id special other) :=
  (coincide_call hclasses hrun id special.name (.cons h .nil)).bind fun _ _ hanswer =>
    coincide_truth hanswer

theorem coincide_equal {left other right twin : Handle} (hleft : pairing.values left other)
    (hright : pairing.values right twin) :
    Coincide pairing.states Eq (equal classes run left right) (equal others later other twin) := by
  unfold equal
  refine (coincide_inspect hleft).bind fun first one hfirst => ?_
  have hcompared := hfirst
  cases hfirst with
  | none =>
      refine (coincide_inspect hright).bind fun second two hsecond => ?_
      cases hsecond with
      | none => exact .pure rfl
      | some hobject => exact coincide_incomparable hclasses _ hcompared (.some hobject)
  | some hobject =>
      cases hobject with
      | ofInstance id => exact coincide_askClass hclasses hrun id .equal hright
      | _ =>
          refine (coincide_inspect hright).bind fun second two hsecond => ?_
          have hboth : Coincide pairing.states (@Eq Bool) (incomparable classes .equality _ second)
              (incomparable others .equality _ two) :=
            coincide_incomparable hclasses .equality hcompared hsecond
          cases hsecond with
          | none => exact hboth
          | some hsame => cases hsame <;> first | exact hboth | exact .pure rfl

theorem coincide_less {left other right twin : Handle} (hleft : pairing.values left other)
    (hright : pairing.values right twin) :
    Coincide pairing.states Eq (less classes run left right) (less others later other twin) := by
  unfold less
  refine (coincide_inspect hleft).bind fun first one hfirst => ?_
  have hcompared := hfirst
  cases hfirst with
  | none =>
      refine (coincide_inspect hright).bind fun second two hsecond => ?_
      exact coincide_incomparable hclasses _ hcompared hsecond
  | some hobject =>
      cases hobject with
      | ofInstance id => exact coincide_askClass hclasses hrun id .less hright
      | _ =>
          refine (coincide_inspect hright).bind fun second two hsecond => ?_
          have hboth : Coincide pairing.states (@Eq Bool) (incomparable classes .order _ second)
              (incomparable others .order _ two) :=
            coincide_incomparable hclasses .order hcompared hsecond
          cases hsecond with
          | none => exact hboth
          | some hsame => cases hsame <;> first | exact hboth | exact .pure rfl

theorem coincide_compare (relation : Relation) {left other right twin : Handle}
    (hleft : pairing.values left other) (hright : pairing.values right twin) :
    Coincide pairing.states Eq (compare classes run relation left right)
      (compare others later relation other twin) := by
  have hequal := coincide_equal hclasses hrun hleft hright
  have hless := coincide_less hclasses hrun hleft hright
  cases relation with
  | equal => exact hequal
  | less => exact hless
  | notEqual => exact hequal.bind fun _ _ hanswer => .pure (congrArg not hanswer)
  | greaterOrEqual => exact hless.bind fun _ _ hanswer => .pure (congrArg not hanswer)
  | lessOrEqual =>
      refine hless.bind fun answer _ hanswer => ?_
      subst hanswer
      split
      · exact .pure rfl
      · exact hequal
  | greater =>
      refine hless.bind fun answer _ hanswer => ?_
      subst hanswer
      split
      · exact .pure rfl
      · exact hequal.bind fun _ _ hsame => .pure (congrArg not hsame)

/-! ## Arithmetic -/

theorem coincide_add {left other right twin : Handle} (hleft : pairing.values left other)
    (hright : pairing.values right twin) :
    Coincide pairing.states pairing.values (add classes run left right)
      (add others later other twin) := by
  unfold add
  refine (coincide_inspect hleft).bind fun first one hfirst => ?_
  refine (coincide_inspect hright).bind fun second two hsecond => ?_
  cases hfirst with
  | none => exact coincide_fail _
  | some hobject =>
      cases hobject with
      | ofClass id => exact coincide_fail _
      | flag _ _ value => exact coincide_fail _
      | number _ _ value =>
          cases hsecond with
          | none => exact coincide_fail _
          | some hsame =>
              cases hsame with
              | number _ _ other => exact pairing.makeNumber _
              | _ => exact coincide_fail _
      | text _ _ content =>
          cases hsecond with
          | none => exact coincide_fail _
          | some hsame =>
              cases hsame with
              | text _ _ other => exact pairing.makeText _
              | _ => exact coincide_fail _
      | ofInstance id =>
          refine (coincide_canCall hclasses id _ 1).bind fun answer _ hanswer => ?_
          subst hanswer
          split
          · exact coincide_call hclasses hrun id _ (.cons hright .nil)
          · exact coincide_fail _

omit hclasses hrun in
theorem coincide_onNumbers (operator : Arithmetic) (combine : Int → Int → Int)
    {left other right twin : Handle} (hleft : pairing.values left other)
    (hright : pairing.values right twin) :
    Coincide pairing.states pairing.values (onNumbers operator combine left right)
      (onNumbers operator combine other twin) := by
  unfold onNumbers
  refine (coincide_number? hleft).bind fun first _ hfirst => ?_
  refine (coincide_number? hright).bind fun second _ hsecond => ?_
  subst hfirst hsecond
  split
  · exact pairing.makeNumber _
  · exact coincide_fail _

omit hclasses hrun in
theorem coincide_divide {left other right twin : Handle} (hleft : pairing.values left other)
    (hright : pairing.values right twin) :
    Coincide pairing.states pairing.values (divide left right) (divide other twin) := by
  unfold divide
  refine (coincide_number? hright).bind fun second _ hsecond => ?_
  subst hsecond
  split
  · exact coincide_fail _
  · split
    · exact coincide_fail _
    · refine (coincide_number? hleft).bind fun first _ hfirst => ?_
      subst hfirst
      split
      · exact coincide_fail _
      · exact pairing.makeNumber _

theorem coincide_calculate (operator : Arithmetic) {left other right twin : Handle}
    (hleft : pairing.values left other) (hright : pairing.values right twin) :
    Coincide pairing.states pairing.values (calculate classes run operator left right)
      (calculate others later operator other twin) := by
  cases operator with
  | add => exact coincide_add hclasses hrun hleft hright
  | subtract => exact coincide_onNumbers .subtract _ hleft hright
  | multiply => exact coincide_onNumbers .multiply _ hleft hright
  | divide => exact coincide_divide hleft hright

/-! ## Statements -/

/-- A line of values is written alike, the blanks before them included. -/
theorem coincide_printMore (fuel : Nat) {ones twins : List Node}
    (h : List.Forall₂ nodes ones twins) :
    Coincide pairing.states Eq (printMore classes run fuel ones)
      (printMore others later fuel twins) := by
  induction h with
  | nil => exact .pure rfl
  | cons hnode _ ih =>
      rw [printMore_cons, printMore_cons]
      refine (pairing.write " ").bind fun _ _ _ => ?_
      refine (hrun hnode).bind fun value twin hvalue => ?_
      refine (coincide_display hclasses hrun fuel hvalue).bind fun text _ htext => ?_
      subst htext
      exact (pairing.write text).bind fun _ _ _ => ih

theorem coincide_printLine (fuel : Nat) {ones twins : List Node}
    (h : List.Forall₂ nodes ones twins) :
    Coincide pairing.states Eq (printLine classes run fuel ones)
      (printLine others later fuel twins) := by
  cases h with
  | nil => exact pairing.write "\n"
  | cons hnode hothers =>
      rw [printLine_cons, printLine_cons]
      refine (hrun hnode).bind fun value twin hvalue => ?_
      refine (coincide_display hclasses hrun fuel hvalue).bind fun text _ htext => ?_
      subst htext
      refine (pairing.write text).bind fun _ _ _ => ?_
      exact (coincide_printMore hclasses hrun fuel hothers).bind fun _ _ _ => pairing.write "\n"

omit hclasses in
/-- A value on its way out ends both blocks, and any other value neither of them. -/
theorem coincide_sequence {ones twins : List Node} (h : List.Forall₂ nodes ones twins) :
    Coincide pairing.states pairing.values (sequence run ones) (sequence later twins) := by
  induction h with
  | nil => exact .pure pairing.empty
  | cons hnode _ ih =>
      refine (hrun hnode).bind fun value twin hvalue => ?_
      cases pairing.oneKind hvalue with
      | empty => exact ih
      | holding _ _ _ => exact ih
      | returned hinner => exact .pure (pairing.returned hinner)

omit hclasses in
theorem coincide_finish {block twin : Node} (h : nodes block twin) :
    Coincide pairing.states pairing.values (finish run block) (finish later twin) := by
  refine (hrun h).bind fun value twin hvalue => ?_
  cases pairing.oneKind hvalue with
  | empty => exact .pure pairing.empty
  | holding _ _ _ => exact .pure pairing.empty
  | returned hinner => exact .pure hinner

theorem coincide_callMethod (name : String) {receiver twin : Node} {ones twins : List Node}
    (hreceiver : nodes receiver twin) (harguments : List.Forall₂ nodes ones twins) :
    Coincide pairing.states pairing.values (callMethod classes run receiver name ones)
      (callMethod others later twin name twins) := by
  unfold callMethod
  refine (hrun hreceiver).bind fun value twin hvalue => ?_
  refine (coincide_instanceOf? hvalue).bind fun found _ hfound => ?_
  subst hfound
  cases found with
  | none => exact .pure pairing.empty
  | some id =>
      rw [← harguments.length_eq]
      refine (coincide_canCall hclasses id name ones.length).bind fun answer _ hanswer => ?_
      subst hanswer
      split
      · exact (coincide_runAll hrun harguments).bind fun _ _ hvalues =>
          coincide_call hclasses hrun id name hvalues
      · exact .pure pairing.empty

theorem coincide_construct (cls : ClassId) {ones twins : List Node}
    (harguments : List.Forall₂ nodes ones twins) :
    Coincide pairing.states pairing.values (construct classes run cls ones)
      (construct others later cls twins) := by
  unfold construct
  rw [← harguments.length_eq]
  refine (pairing.create cls).bind fun id _ hid => ?_
  subst hid
  refine (coincide_canCall hclasses id _ ones.length).bind fun answer _ hanswer => ?_
  subst hanswer
  split
  · refine (coincide_runAll hrun harguments).bind fun values twins hvalues => ?_
    exact (coincide_call hclasses hrun id _ hvalues).bind fun _ _ _ =>
      .pure (pairing.ofInstance id)
  · exact .pure (pairing.ofInstance id)

omit hclasses in
theorem coincide_setField (field : String) {object value other twin : Node}
    (hobject : nodes object other) (hvalue : nodes value twin) :
    Coincide pairing.states pairing.values (setField run object field value)
      (setField later other field twin) := by
  refine (hrun hobject).bind fun target aim htarget => ?_
  refine (coincide_instanceOf? htarget).bind fun found _ hfound => ?_
  subst hfound
  cases found with
  | none => exact coincide_fail _
  | some id =>
      refine (hrun hvalue).bind fun handle copy hhandle => ?_
      exact (pairing.assignField id field hhandle).bind fun _ _ _ => .pure hhandle

omit hclasses in
/-- What follows a condition goes the same way. -/
theorem coincide_condition {good : α → α → Prop} {condition twin : Node} {next other : Bool → Run α}
    (hcondition : nodes condition twin)
    (hnext : ∀ answer, Coincide pairing.states good (next answer) (other answer)) :
    Coincide pairing.states good (do next (← truth (← run condition)))
      (do other (← truth (← later twin))) := by
  refine (hrun hcondition).bind fun value twin hvalue => ?_
  refine (coincide_truth hvalue).bind fun answer _ hanswer => ?_
  subst hanswer
  exact hnext answer

end

/-! ## Nodes -/

/-- Whatever the fuel, running trees that differ in related literals at most comes to related
ends. -/
theorem execute_follows (hclasses : classes.Related (Node.Alike pairing.Literals) others)
    (fuel : Nat) :
    pairing.Follows (Node.Alike pairing.Literals) (execute classes fuel) (execute others fuel) := by
  induction fuel with
  | zero =>
      intro node twin _
      exact coincide_stop _
  | succ fuel ih =>
      intro node twin hnode
      cases hnode with
      | number hliterals | text hliterals | flag hliterals => exact .pure hliterals
      | absent => exact .pure pairing.empty
      | «variable» name fields => exact coincide_lookup name fields
      | arithmetic operator hleft hright =>
          refine (ih hleft).bind fun first one hfirst => ?_
          refine (ih hright).bind fun second two hsecond => ?_
          exact coincide_calculate hclasses ih operator hfirst hsecond
      | @connective word left right first second hleft hright =>
          have hlast : Coincide pairing.states pairing.values
              (do Run.makeFlag (← truth (← execute classes fuel right)))
              (do Run.makeFlag (← truth (← execute others fuel second))) :=
            coincide_condition ih hright pairing.makeFlag
          cases word with
          | or =>
              refine coincide_condition ih hleft fun answer => ?_
              cases answer with
              | true => exact pairing.makeFlag true
              | false => exact hlast
          | and =>
              refine coincide_condition ih hleft fun answer => ?_
              cases answer with
              | true => exact hlast
              | false => exact pairing.makeFlag false
      | negation hoperand =>
          exact coincide_condition ih hoperand fun answer => pairing.makeFlag !answer
      | comparison relation hleft hright =>
          refine (ih hleft).bind fun first one hfirst => ?_
          refine (ih hright).bind fun second two hsecond => ?_
          refine (coincide_compare hclasses ih relation hfirst hsecond).bind
            fun answer _ hanswer => ?_
          subst hanswer
          exact pairing.makeFlag answer
      | stringify hoperand =>
          refine (ih hoperand).bind fun value twin hvalue => ?_
          refine (coincide_display hclasses ih fuel hvalue).bind fun text _ htext => ?_
          subst htext
          exact pairing.makeText text
      | call name hreceiver harguments =>
          exact coincide_callMethod hclasses ih name hreceiver harguments
      | create cls harguments => exact coincide_construct hclasses ih cls harguments
      | assign name hvalue =>
          refine (ih hvalue).bind fun handle twin hhandle => ?_
          exact (pairing.assign name hhandle).bind fun _ _ _ => .pure hhandle
      | assignField field hobject hvalue => exact coincide_setField ih field hobject hvalue
      | print harguments =>
          exact (coincide_printLine hclasses ih fuel harguments).bind
            fun _ _ _ => .pure pairing.empty
      | block hstatements => exact coincide_sequence ih hstatements
      | giveBack hvalue =>
          exact (ih hvalue).bind fun _ _ hgiven => .pure (pairing.returned hgiven)
      | body hblock => exact coincide_finish ih hblock
      | ifThen hcondition hconsequent =>
          refine coincide_condition ih hcondition fun answer => ?_
          cases answer with
          | true => exact ih hconsequent
          | false => exact .pure pairing.empty
      | ifThenElse hcondition hconsequent halternative =>
          refine coincide_condition ih hcondition fun answer => ?_
          cases answer with
          | true => exact ih hconsequent
          | false => exact ih halternative
      | classDefinition cls =>
          have hassign : Coincide pairing.states Eq
              (Run.assign (classes.nameOf cls) (.own (.ofClass cls)))
              (Run.assign (others.nameOf cls) (.own (.ofClass cls))) := by
            rw [hclasses.nameOf]
            exact pairing.assign _ (pairing.ofClass cls)
          exact hassign.bind fun _ _ _ => .pure pairing.empty

end Pairing

end Offside
