import Offside.Proofs.Execution.Streams
import Offside.Proofs.Execution.World

/-!
# Running only adds

Whatever a node does when it runs, and however it ends, it adds to the state and takes nothing
away.  `Run.OnlyAdds literals objects computation good state` says so of a computation, from a
state with these objects: the state that it leaves extends the state that it started from, its
values are of those objects and of new ones, which have origins of their own, and a value that
it gives is `good`.

Many computations only ask (`Run.Asks`): they leave the state as it is.  The others have one
lemma each, and `OnlyAdds.bind` puts computations in sequence.  No node is required to be one
that a text can have, and no value to be valid, so a computation may well stop in the middle;
what was added by then stays.
-/

namespace Offside.Run

/-! ## Computations that only add -/

/-- A state came of another one, and these objects of those. -/
structure Grows (literals : Set Object) (before : State) (objects : Set Object) (after : State)
    (later : Set Object) : Prop where
  state : before.Extends after
  kept : objects ⊆ later
  made : ∀ object ∈ later, object ∉ objects → ∃ serial, object.origin? = some (.made serial)
  inventory : IsInventory objects before.heap.made → IsInventory later after.heap.made
  isIn : after.IsIn literals later
  count : before.heap.made ≤ after.heap.made

/-- A computation ends with a good value or for whatever reason, and the state has grown. -/
def EndsGrown (literals objects : Set Object) (before : State) {α : Type}
    (good : α → Set Object → Prop) : EStateM.Result Stop State α → Prop
  | .ok value after => ∃ later, Grows literals before objects after later ∧ good value later
  | .error _ after => ∃ later, Grows literals before objects after later

/-- From this state, the computation adds to the state and to the objects, and does no more. -/
def OnlyAdds (literals objects : Set Object) {α : Type} (computation : Run α)
    (good : α → Set Object → Prop) (state : State) : Prop :=
  EndsGrown literals objects state good (computation state)

/-- The computation leaves every state as it is. -/
def Asks {α : Type} (computation : Run α) : Prop :=
  ∀ state, (∃ value, computation state = .ok value state) ∨
    ∃ reason, computation state = .error reason state

/-- Any value will do. -/
def whatever {α : Type} (_ : α) (_ : Set Object) : Prop :=
  True

/-- All of the values are of these objects. -/
def AllIn (values : List Handle) (objects : Set Object) : Prop :=
  ∀ value ∈ values, value.IsIn objects

variable {literals objects : Set Object} {classes : Classes} {run : Node → Run Handle}
  {α β : Type} {state : State}

theorem AllIn.cons {value : Handle} {values : List Handle} (hvalue : value.IsIn objects)
    (hvalues : AllIn values objects) : AllIn (value :: values) objects :=
  List.forall_mem_cons.mpr ⟨hvalue, hvalues⟩

theorem allIn_nil (objects : Set Object) : AllIn [] objects := by
  intro value hvalue
  cases hvalue

/-- A state that extends the one before and has the same objects has grown. -/
theorem Grows.of_isIn {before after : State} (h : before.Extends after)
    (hmade : before.heap.made = after.heap.made) (hafter : after.IsIn literals objects) :
    Grows literals before objects after objects :=
  ⟨h, Set.Subset.rfl, fun _ hold hnew => absurd hold hnew, fun hinventory => hmade ▸ hinventory,
    hafter, Nat.le_of_eq hmade⟩

theorem Grows.refl (hstate : state.IsIn literals objects) :
    Grows literals state objects state objects :=
  .of_isIn (.refl state) rfl hstate

theorem Grows.trans {before between after : State} {later last : Set Object}
    (h : Grows literals before objects between later)
    (hafter : Grows literals between later after last) :
    Grows literals before objects after last := by
  refine ⟨h.state.trans hafter.state, h.kept.trans hafter.kept, fun object hobject hnew => ?_,
    fun hinventory => hafter.inventory (h.inventory hinventory), hafter.isIn,
    Nat.le_trans h.count hafter.count⟩
  by_cases hbetween : object ∈ later
  · exact h.made object hbetween hnew
  · exact hafter.made object hobject hbetween

theorem OnlyAdds.pure {value : α} {good : α → Set Object → Prop}
    (hstate : state.IsIn literals objects) (hgood : good value objects) :
    OnlyAdds literals objects (Pure.pure value) good state :=
  ⟨objects, .refl hstate, hgood⟩

theorem OnlyAdds.bind {first : Run α} {next : α → Run β} {good : α → Set Object → Prop}
    {better : β → Set Object → Prop} (hfirst : OnlyAdds literals objects first good state)
    (hnext : ∀ value after later, objects ⊆ later → after.IsIn literals later →
      good value later → OnlyAdds literals later (next value) better after) :
    OnlyAdds literals objects (first >>= next) better state := by
  unfold OnlyAdds at hfirst
  change EndsGrown literals objects state better (EStateM.bind first next state)
  unfold EStateM.bind
  cases hresult : first state with
  | error reason after =>
      rw [hresult] at hfirst
      exact hfirst
  | ok value after =>
      rw [hresult] at hfirst
      -- what follows starts with all that was added
      obtain ⟨later, hgrows, hgood⟩ := hfirst
      have hrest := hnext value after later hgrows.kept hgrows.isIn hgood
      unfold OnlyAdds at hrest
      change EndsGrown literals objects state better (next value after)
      cases hlater : next value after with
      | ok other last =>
          rw [hlater] at hrest
          obtain ⟨most, hmore, hbetter⟩ := hrest
          exact ⟨most, hgrows.trans hmore, hbetter⟩
      | error cause last =>
          rw [hlater] at hrest
          obtain ⟨most, hmore⟩ := hrest
          exact ⟨most, hgrows.trans hmore⟩

/-! ## Asking -/

theorem Asks.onlyAdds {computation : Run α} (h : Asks computation)
    (hstate : state.IsIn literals objects) :
    OnlyAdds literals objects computation whatever state := by
  unfold OnlyAdds
  obtain ⟨value, heq⟩ | ⟨reason, heq⟩ := h state
  · rw [heq]
    exact ⟨objects, .refl hstate, trivial⟩
  · rw [heq]
    exact ⟨objects, .refl hstate⟩

theorem onlyAdds_stop {good : α → Set Object → Prop} (reason : Stop)
    (hstate : state.IsIn literals objects) :
    OnlyAdds literals objects (stop reason) good state :=
  ⟨objects, .refl hstate⟩

theorem onlyAdds_fail {good : α → Set Object → Prop} (fault : RunFault)
    (hstate : state.IsIn literals objects) :
    OnlyAdds literals objects (fail fault) good state :=
  ⟨objects, .refl hstate⟩

/-- After something was only asked, everything is as before. -/
theorem Asks.bind {first : Run α} {next : α → Run β} {good : β → Set Object → Prop}
    (h : Asks first) (hstate : state.IsIn literals objects)
    (hnext : ∀ value, OnlyAdds literals objects (next value) good state) :
    OnlyAdds literals objects (first >>= next) good state := by
  change EndsGrown literals objects state good (EStateM.bind first next state)
  unfold EStateM.bind
  obtain ⟨value, heq⟩ | ⟨reason, heq⟩ := h state
  · rw [heq]
    exact hnext value
  · rw [heq]
    exact ⟨objects, .refl hstate⟩

theorem asks_pure (value : α) : Asks (Pure.pure value) :=
  fun _ => .inl ⟨value, rfl⟩

theorem Asks.trans {first : Run α} {next : α → Run β} (h : Asks first)
    (hnext : ∀ value, Asks (next value)) : Asks (first >>= next) := by
  intro state
  change (∃ value, EStateM.bind first next state = .ok value state) ∨
    ∃ reason, EStateM.bind first next state = .error reason state
  unfold EStateM.bind
  obtain ⟨value, heq⟩ | ⟨reason, heq⟩ := h state
  · rw [heq]
    exact hnext value state
  · rw [heq]
    exact .inr ⟨reason, rfl⟩

theorem asks_inspect (value : Handle) : Asks (inspect value) := by
  intro state
  cases value with
  | empty => exact .inl ⟨_, rfl⟩
  | holding object owning => exact .inl ⟨_, rfl⟩
  | returned inner => exact .inr ⟨_, rfl⟩

theorem asks_instanceOf? (value : Handle) : Asks (instanceOf? value) :=
  (asks_inspect value).trans fun _ => asks_pure _

theorem asks_truth (value : Handle) : Asks (truth value) :=
  (asks_inspect value).trans fun _ => asks_pure _

theorem asks_number? (value : Handle) : Asks (number? value) := by
  refine (asks_inspect value).trans fun found => ?_
  split
  · exact asks_pure _
  · exact asks_pure _

theorem asks_canCall (id : InstanceId) (name : String) (arity : Nat) :
    Asks (canCall classes id name arity) :=
  fun _ => .inl ⟨_, rfl⟩

theorem asks_displayPlain (object : Object) : Asks (displayPlain classes object) := by
  intro state
  cases object with
  | number origin value =>
      rw [displayPlain]
      cases Decimal.write? value with
      | some digits => exact .inl ⟨_, rfl⟩
      | none => exact .inr ⟨_, rfl⟩
  | text | flag | ofClass | ofInstance => exact .inl ⟨_, rfl⟩

theorem asks_incomparable (question : Question) (left right : Option Object) :
    Asks (incomparable classes question left right : Run α) := by
  intro state
  unfold incomparable
  split <;> exact .inr ⟨_, rfl⟩

/-! ## Scopes, fields and new objects -/

theorem onlyAdds_write (text : String) (hstate : state.IsIn literals objects) :
    OnlyAdds literals objects (write text) whatever state :=
  ⟨objects, .of_isIn (.write state text) rfl ⟨hstate.literals, hstate.scope, hstate.fields⟩,
    trivial⟩

theorem onlyAdds_assign (name : String) {value : Handle} (hstate : state.IsIn literals objects)
    (hvalue : value.IsIn objects) : OnlyAdds literals objects (assign name value) whatever state :=
  ⟨objects, .of_isIn (.assign state name value) rfl
    ⟨hstate.literals, hstate.scope.set name hvalue, hstate.fields⟩, trivial⟩

/-- Binding a field adds nothing but its name. -/
theorem grows_setField (id : InstanceId) (name : String) {value : Handle}
    (hstate : state.IsIn literals objects) (hvalue : value.IsIn objects) :
    Grows literals state objects { state with heap := state.heap.setField id name value }
      objects := by
  refine .of_isIn (.setField state id name value) rfl
    ⟨hstate.literals, hstate.scope, fun other => ?_⟩
  obtain heq | heq := state.heap.fields_setField_cases id other name value
  · rw [heq]
    exact hstate.fields other
  · rw [heq]
    exact (hstate.fields other).set name hvalue

theorem onlyAdds_assignField (id : InstanceId) (name : String) {value : Handle}
    (hstate : state.IsIn literals objects) (hvalue : value.IsIn objects) :
    OnlyAdds literals objects (assignField id name value) whatever state :=
  ⟨objects, grows_setField id name hstate hvalue, trivial⟩

/-- A number, a text or a flag that is made is a new object. -/
theorem onlyAdds_make {build : Origin → Object} (hstate : state.IsIn literals objects)
    (hbuild : ∀ origin, (build origin).origin? = some origin) :
    OnlyAdds literals objects (make build) Handle.IsIn state := by
  have hsubset := Set.subset_insert (build (.made state.heap.made)) objects
  refine ⟨insert (build (.made state.heap.made)) objects,
    ⟨⟨fun _ _ h => h, fun _ _ h => h, fun _ h => h, "", String.append_empty.symm⟩, hsubset,
      fun object hobject hnew => ⟨state.heap.made, ?_⟩,
      fun hinventory => hinventory.insert (hbuild _),
      ⟨hstate.literals.trans hsubset, hstate.scope.mono hsubset,
        fun id => (hstate.fields id).mono hsubset⟩, Nat.le_succ _⟩, fun _ => Set.mem_insert _ _⟩
  obtain rfl | hold := Set.mem_insert_iff.mp hobject
  · exact hbuild _
  · exact absurd hold hnew

theorem onlyAdds_makeNumber (value : Int) (hstate : state.IsIn literals objects) :
    OnlyAdds literals objects (makeNumber value) Handle.IsIn state :=
  onlyAdds_make hstate fun _ => rfl

theorem onlyAdds_makeText (content : String) (hstate : state.IsIn literals objects) :
    OnlyAdds literals objects (makeText content) Handle.IsIn state :=
  onlyAdds_make hstate fun _ => rfl

theorem onlyAdds_makeFlag (value : Bool) (hstate : state.IsIn literals objects) :
    OnlyAdds literals objects (makeFlag value) Handle.IsIn state :=
  onlyAdds_make hstate fun _ => rfl

/-- An instance is not a number, a text or a flag. -/
theorem isIn_ofInstance (id : InstanceId) (owning : Bool) (objects : Set Object) :
    (Handle.holding (.ofInstance id) owning).IsIn objects :=
  nofun

theorem onlyAdds_create (cls : ClassId) (hstate : state.IsIn literals objects) :
    OnlyAdds literals objects (create cls) whatever state := by
  have hfields (id : InstanceId) : Scope.IsIn ((state.heap.create cls).2.fields id) objects := by
    obtain heq | ⟨-, heq⟩ := state.heap.fields_create_cases cls id
    · rw [heq]
      exact hstate.fields id
    · rw [heq]
      exact (Scope.isIn_empty objects).set Heap.selfName (isIn_ofInstance _ _ _)
  exact ⟨objects, .of_isIn (.create state cls) rfl ⟨hstate.literals, hstate.scope, hfields⟩,
    trivial⟩

theorem onlyAdds_readField (id : InstanceId) (name : String)
    (hstate : state.IsIn literals objects) :
    OnlyAdds literals objects (readField id name) Handle.IsIn state := by
  unfold OnlyAdds readField
  cases hfield : (state.heap.fields id).get? name with
  | some value => exact ⟨objects, .refl hstate, (hstate.fields id).get? hfield⟩
  | none =>
      -- a field that is missing is bound, and its value is empty
      have hempty : Handle.empty.IsIn objects := trivial
      exact ⟨objects, grows_setField id name hstate hempty, hempty⟩

theorem onlyAdds_follow {value : Handle} (fields : List String)
    (hstate : state.IsIn literals objects) (hvalue : value.IsIn objects) :
    OnlyAdds literals objects (follow value fields) Handle.IsIn state := by
  induction fields generalizing value state objects with
  | nil => exact .pure hstate hvalue
  | cons field fields ih =>
      rw [follow]
      refine (asks_instanceOf? value).bind hstate fun found => ?_
      cases found with
      | none => exact onlyAdds_fail _ hstate
      | some id =>
          refine (onlyAdds_readField id field hstate).bind fun next after later _ hafter hnext => ?_
          exact ih hafter hnext

theorem onlyAdds_lookup (name : String) (fields : List String)
    (hstate : state.IsIn literals objects) :
    OnlyAdds literals objects (lookup name fields) Handle.IsIn state := by
  unfold OnlyAdds lookup
  cases hvalue : state.scope.get? name with
  | none => exact ⟨objects, .refl hstate⟩
  | some value => exact onlyAdds_follow fields hstate (hstate.scope.get? hvalue)

/-! ## Calls -/

/-- Running a node only adds. -/
def Adds (literals : Set Object) (run : Node → Run Handle) : Prop :=
  ∀ {node : Node} {objects : Set Object} {state : State}, node.LiteralsIn literals →
    state.IsIn literals objects → OnlyAdds literals objects (run node) Handle.IsIn state

/-- The scope outside of a call is there again behind it. -/
theorem onlyAdds_within {scope : Scope} {inner : Run α} {good : α → Set Object → Prop}
    (hstate : state.IsIn literals objects)
    (h : OnlyAdds literals objects inner good { state with scope }) :
    OnlyAdds literals objects (within scope inner) good state := by
  have hback {after : State} {later : Set Object}
      (hgrows : Grows literals { state with scope } objects after later) :
      Grows literals state objects { after with scope := state.scope } later :=
    ⟨⟨hgrows.state.class?, hgrows.state.fields, fun _ h => h, hgrows.state.output⟩,
      hgrows.kept, hgrows.made, hgrows.inventory,
      ⟨hgrows.isIn.literals, hstate.scope.mono hgrows.kept, hgrows.isIn.fields⟩, hgrows.count⟩
  unfold OnlyAdds within
  unfold OnlyAdds at h
  cases hresult : inner { state with scope } with
  | ok value after =>
      rw [hresult] at h
      obtain ⟨later, hgrows, hgood⟩ := h
      exact ⟨later, hback hgrows, hgood⟩
  | error reason after =>
      rw [hresult] at h
      obtain ⟨later, hgrows⟩ := h
      exact ⟨later, hback hgrows⟩

theorem isIn_frame (receiver : InstanceId) (parameters : List String) {values : List Handle}
    (hvalues : AllIn values objects) :
    Scope.IsIn (frame receiver parameters values) objects := by
  refine ((Scope.isIn_empty objects).set Heap.selfName (isIn_ofInstance _ _ _)).setAll ?_
  intro pair hpair
  exact hvalues pair.2 (List.of_mem_zip hpair).2

/-- What runs when a method is called has its literals in the class table. -/
theorem literalsIn_of_methodOf? (hclasses : classes.LiteralsIn literals) {heap : Heap}
    {id : InstanceId} {name : String} {method : Method}
    (hmethod : methodOf? classes heap id name = some method) :
    method.body.LiteralsIn literals := by
  obtain ⟨cls, -, hresolve⟩ := Option.bind_eq_some_iff.mp hmethod
  obtain ⟨owner, record, hrecord, hmem⟩ := Classes.exists_of_resolve hresolve
  exact hclasses owner record hrecord method hmem

section

variable (hclasses : classes.LiteralsIn literals) (hrun : Adds literals run)
include hclasses hrun

theorem onlyAdds_call (receiver : InstanceId) (name : String) {values : List Handle}
    (hstate : state.IsIn literals objects) (hvalues : AllIn values objects) :
    OnlyAdds literals objects (call classes run receiver name values) Handle.IsIn state := by
  unfold OnlyAdds call
  cases hmethod : methodOf? classes state.heap receiver name with
  | none => exact ⟨objects, .refl hstate⟩
  | some method =>
      dsimp only
      split
      · have hframe := isIn_frame receiver method.parameters hvalues
        exact onlyAdds_within hstate (hrun (literalsIn_of_methodOf? hclasses hmethod)
          ⟨hstate.literals, hframe, hstate.fields⟩)
      · exact ⟨objects, .refl hstate⟩

omit hclasses in
theorem onlyAdds_runAll {nodes : List Node} (hnodes : ∀ node ∈ nodes, node.LiteralsIn literals)
    (hstate : state.IsIn literals objects) :
    OnlyAdds literals objects (runAll run nodes) AllIn state := by
  induction nodes generalizing state objects with
  | nil => exact .pure hstate (allIn_nil objects)
  | cons node nodes ih =>
      obtain ⟨hnode, hothers⟩ := List.forall_mem_cons.mp hnodes
      rw [runAll]
      refine (hrun hnode hstate).bind fun value after later _ hafter hvalue => ?_
      refine (ih hothers hafter).bind fun values last most hmore hlast hvalues => ?_
      exact .pure hlast (.cons (hvalue.mono hmore) hvalues)

theorem onlyAdds_display (fuel : Nat) (value : Handle) (hstate : state.IsIn literals objects) :
    OnlyAdds literals objects (display classes run fuel value) whatever state := by
  induction fuel generalizing value state objects with
  | zero =>
      rw [display_eq]
      refine (asks_inspect value).bind hstate fun found => ?_
      split
      · exact .pure hstate trivial
      · refine (asks_canCall _ _ _).bind hstate fun fits => ?_
        split
        · exact onlyAdds_stop _ hstate
        · exact (asks_displayPlain _).onlyAdds hstate
      · exact (asks_displayPlain _).onlyAdds hstate
  | succ fuel ih =>
      rw [display_eq]
      refine (asks_inspect value).bind hstate fun found => ?_
      split
      · exact .pure hstate trivial
      · refine (asks_canCall _ _ _).bind hstate fun fits => ?_
        split
        · refine (onlyAdds_call hclasses hrun _ _ hstate (allIn_nil objects)).bind
            fun text after later _ hafter _ => ?_
          exact ih text hafter
        · exact (asks_displayPlain _).onlyAdds hstate
      · exact (asks_displayPlain _).onlyAdds hstate

/-! ## Comparisons -/

theorem onlyAdds_askClass (id : InstanceId) (special : Special) {other : Handle}
    (hstate : state.IsIn literals objects) (hother : other.IsIn objects) :
    OnlyAdds literals objects (askClass classes run id special other) whatever state := by
  unfold askClass
  refine (onlyAdds_call hclasses hrun id special.name hstate (.cons hother (allIn_nil _))).bind
    fun value after later _ hafter _ => ?_
  exact (asks_truth value).onlyAdds hafter

theorem onlyAdds_equal (left : Handle) {right : Handle} (hstate : state.IsIn literals objects)
    (hright : right.IsIn objects) :
    OnlyAdds literals objects (equal classes run left right) whatever state := by
  unfold equal
  refine (asks_inspect left).bind hstate fun first => ?_
  split
  · exact onlyAdds_askClass hclasses hrun _ .equal hstate hright
  · refine (asks_inspect right).bind hstate fun second => ?_
    split <;> first | exact .pure hstate trivial | exact (asks_incomparable _ _ _).onlyAdds hstate

theorem onlyAdds_less (left : Handle) {right : Handle} (hstate : state.IsIn literals objects)
    (hright : right.IsIn objects) :
    OnlyAdds literals objects (less classes run left right) whatever state := by
  unfold less
  refine (asks_inspect left).bind hstate fun first => ?_
  split
  · exact onlyAdds_askClass hclasses hrun _ .less hstate hright
  · refine (asks_inspect right).bind hstate fun second => ?_
    split <;> first | exact .pure hstate trivial | exact (asks_incomparable _ _ _).onlyAdds hstate

theorem onlyAdds_compare (relation : Relation) (left : Handle) {right : Handle}
    (hstate : state.IsIn literals objects) (hright : right.IsIn objects) :
    OnlyAdds literals objects (compare classes run relation left right) whatever state := by
  have hequal := onlyAdds_equal hclasses hrun left hstate hright
  have hless := onlyAdds_less hclasses hrun left hstate hright
  cases relation with
  | equal => exact hequal
  | less => exact hless
  | notEqual => exact hequal.bind fun answer after later _ hafter _ => .pure hafter trivial
  | greaterOrEqual => exact hless.bind fun answer after later _ hafter _ => .pure hafter trivial
  | lessOrEqual =>
      refine hless.bind fun answer after later hmore hafter _ => ?_
      split
      · exact .pure hafter trivial
      · exact onlyAdds_equal hclasses hrun left hafter (hright.mono hmore)
  | greater =>
      refine hless.bind fun answer after later hmore hafter _ => ?_
      split
      · exact .pure hafter trivial
      · exact (onlyAdds_equal hclasses hrun left hafter (hright.mono hmore)).bind
          fun same last most _ hlast _ => .pure hlast trivial

/-! ## Arithmetic -/

theorem onlyAdds_add (left : Handle) {right : Handle} (hstate : state.IsIn literals objects)
    (hright : right.IsIn objects) :
    OnlyAdds literals objects (add classes run left right) Handle.IsIn state := by
  unfold add
  refine (asks_inspect left).bind hstate fun first => ?_
  refine (asks_inspect right).bind hstate fun second => ?_
  split
  · exact onlyAdds_makeNumber _ hstate
  · exact onlyAdds_makeText _ hstate
  · refine (asks_canCall _ _ _).bind hstate fun fits => ?_
    split
    · exact onlyAdds_call hclasses hrun _ _ hstate (.cons hright (allIn_nil _))
    · exact onlyAdds_fail _ hstate
  · exact onlyAdds_fail _ hstate

omit hclasses hrun in
theorem onlyAdds_onNumbers (operator : Arithmetic) (combine : Int → Int → Int)
    (left right : Handle) (hstate : state.IsIn literals objects) :
    OnlyAdds literals objects (onNumbers operator combine left right) Handle.IsIn state := by
  unfold onNumbers
  refine (asks_number? left).bind hstate fun first => ?_
  refine (asks_number? right).bind hstate fun second => ?_
  split
  · exact onlyAdds_makeNumber _ hstate
  · exact onlyAdds_fail _ hstate

omit hclasses hrun in
theorem onlyAdds_divide (left right : Handle) (hstate : state.IsIn literals objects) :
    OnlyAdds literals objects (divide left right) Handle.IsIn state := by
  unfold divide
  refine (asks_number? right).bind hstate fun divisor => ?_
  split
  · exact onlyAdds_fail _ hstate
  · split
    · exact onlyAdds_fail _ hstate
    · refine (asks_number? left).bind hstate fun dividend => ?_
      split
      · exact onlyAdds_fail _ hstate
      · exact onlyAdds_makeNumber _ hstate

theorem onlyAdds_calculate (operator : Arithmetic) (left : Handle) {right : Handle}
    (hstate : state.IsIn literals objects) (hright : right.IsIn objects) :
    OnlyAdds literals objects (calculate classes run operator left right) Handle.IsIn state := by
  cases operator with
  | add => exact onlyAdds_add hclasses hrun left hstate hright
  | subtract => exact onlyAdds_onNumbers .subtract _ left right hstate
  | multiply => exact onlyAdds_onNumbers .multiply _ left right hstate
  | divide => exact onlyAdds_divide left right hstate

/-! ## Statements -/

theorem onlyAdds_printMore (fuel : Nat) {nodes : List Node}
    (hnodes : ∀ node ∈ nodes, node.LiteralsIn literals) (hstate : state.IsIn literals objects) :
    OnlyAdds literals objects (printMore classes run fuel nodes) whatever state := by
  induction nodes generalizing state objects with
  | nil => exact .pure hstate trivial
  | cons node nodes ih =>
      obtain ⟨hnode, hothers⟩ := List.forall_mem_cons.mp hnodes
      rw [printMore_cons]
      refine (onlyAdds_write " " hstate).bind fun _ spaced _ _ hspaced _ => ?_
      refine (hrun hnode hspaced).bind fun value found _ _ hfound _ => ?_
      refine (onlyAdds_display hclasses hrun fuel value hfound).bind
        fun text shown _ _ hshown _ => ?_
      refine (onlyAdds_write text hshown).bind fun _ after _ _ hafter _ => ?_
      exact ih hothers hafter

theorem onlyAdds_printLine (fuel : Nat) {nodes : List Node}
    (hnodes : ∀ node ∈ nodes, node.LiteralsIn literals) (hstate : state.IsIn literals objects) :
    OnlyAdds literals objects (printLine classes run fuel nodes) whatever state := by
  cases nodes with
  | nil => exact onlyAdds_write "\n" hstate
  | cons node nodes =>
      obtain ⟨hnode, hothers⟩ := List.forall_mem_cons.mp hnodes
      rw [printLine_cons]
      refine (hrun hnode hstate).bind fun value found _ _ hfound _ => ?_
      refine (onlyAdds_display hclasses hrun fuel value hfound).bind
        fun text shown _ _ hshown _ => ?_
      refine (onlyAdds_write text hshown).bind fun _ after _ _ hafter _ => ?_
      refine (onlyAdds_printMore hclasses hrun fuel hothers hafter).bind
        fun _ last _ _ hlast _ => ?_
      exact onlyAdds_write "\n" hlast

omit hclasses in
theorem onlyAdds_sequence {nodes : List Node}
    (hnodes : ∀ node ∈ nodes, node.LiteralsIn literals) (hstate : state.IsIn literals objects) :
    OnlyAdds literals objects (sequence run nodes) Handle.IsIn state := by
  induction nodes generalizing state objects with
  | nil => exact .pure hstate trivial
  | cons node nodes ih =>
      obtain ⟨hnode, hothers⟩ := List.forall_mem_cons.mp hnodes
      rw [sequence]
      refine (hrun hnode hstate).bind fun value after later _ hafter hvalue => ?_
      cases value with
      | returned inner => exact .pure hafter hvalue
      | empty => exact ih hothers hafter
      | holding object owning => exact ih hothers hafter

omit hclasses in
theorem onlyAdds_finish {block : Node} (hblock : block.LiteralsIn literals)
    (hstate : state.IsIn literals objects) :
    OnlyAdds literals objects (finish run block) Handle.IsIn state := by
  unfold finish
  refine (hrun hblock hstate).bind fun value after later _ hafter hvalue => ?_
  cases value with
  | returned inner => exact .pure hafter hvalue
  | empty => exact .pure hafter trivial
  | holding object owning => exact .pure hafter trivial

theorem onlyAdds_callMethod {receiver : Node} (name : String) {arguments : List Node}
    (hreceiver : receiver.LiteralsIn literals)
    (harguments : ∀ argument ∈ arguments, argument.LiteralsIn literals)
    (hstate : state.IsIn literals objects) :
    OnlyAdds literals objects (callMethod classes run receiver name arguments) Handle.IsIn
      state := by
  unfold callMethod
  refine (hrun hreceiver hstate).bind fun value found _ _ hfound _ => ?_
  refine (asks_instanceOf? value).bind hfound fun target => ?_
  split
  · exact .pure hfound trivial
  · refine (asks_canCall _ _ _).bind hfound fun fits => ?_
    split
    · refine (onlyAdds_runAll hrun harguments hfound).bind
        fun values after _ _ hafter hvalues => ?_
      exact onlyAdds_call hclasses hrun _ name hafter hvalues
    · exact .pure hfound trivial

theorem onlyAdds_construct (cls : ClassId) {arguments : List Node}
    (harguments : ∀ argument ∈ arguments, argument.LiteralsIn literals)
    (hstate : state.IsIn literals objects) :
    OnlyAdds literals objects (construct classes run cls arguments) Handle.IsIn state := by
  unfold construct
  refine (onlyAdds_create cls hstate).bind fun id made _ _ hmade _ => ?_
  refine (asks_canCall _ _ _).bind hmade fun fits => ?_
  split
  · refine (onlyAdds_runAll hrun harguments hmade).bind fun values ready _ _ hready hvalues => ?_
    refine (onlyAdds_call hclasses hrun id _ hready hvalues).bind fun _ after _ _ hafter _ => ?_
    exact .pure hafter (isIn_ofInstance _ _ _)
  · exact .pure hmade (isIn_ofInstance _ _ _)

omit hclasses in
theorem onlyAdds_setField {object value : Node} (field : String)
    (hobject : object.LiteralsIn literals) (hvalue : value.LiteralsIn literals)
    (hstate : state.IsIn literals objects) :
    OnlyAdds literals objects (setField run object field value) Handle.IsIn state := by
  unfold setField
  refine (hrun hobject hstate).bind fun target found _ _ hfound _ => ?_
  refine (asks_instanceOf? target).bind hfound fun target => ?_
  split
  · exact onlyAdds_fail _ hfound
  · refine (hrun hvalue hfound).bind fun handle ready _ _ hready hhandle => ?_
    refine (onlyAdds_assignField _ field hready hhandle).bind fun _ after _ hmore hafter _ => ?_
    exact .pure hafter (hhandle.mono hmore)

omit hclasses in
/-- A condition is asked whether it counts as true. -/
theorem onlyAdds_condition {good : α → Set Object → Prop} {condition : Node} {next : Bool → Run α}
    (hcondition : condition.LiteralsIn literals) (hstate : state.IsIn literals objects)
    (hnext : ∀ answer after later, after.IsIn literals later →
      OnlyAdds literals later (next answer) good after) :
    OnlyAdds literals objects (do next (← truth (← run condition))) good state := by
  refine (hrun hcondition hstate).bind fun value after later _ hafter _ => ?_
  exact (asks_truth value).bind hafter fun answer => hnext answer after later hafter

end

/-! ## Nodes -/

/-- Every amount of fuel runs nodes so. -/
theorem adds_execute (hclasses : classes.LiteralsIn literals) (fuel : Nat) :
    Adds literals (execute classes fuel) := by
  induction fuel with
  | zero =>
      intro node objects state hnode hstate
      exact onlyAdds_stop _ hstate
  | succ fuel ih =>
      intro node objects state hnode hstate
      have hliteral {object : Object} (h : node.literal? = some object) (owning : Bool) :
          (Handle.holding object owning).IsIn objects :=
        fun _ => hstate.literals (hnode.mem h)
      cases node with
      | number | text | flag => exact .pure hstate (hliteral rfl false)
      | absent => exact .pure hstate trivial
      | «variable» name fields => exact onlyAdds_lookup name fields hstate
      | arithmetic operator left right =>
          refine (ih (hnode.operand (by simp [Node.operands])) hstate).bind
            fun first between _ _ hbetween _ => ?_
          refine (ih (hnode.operand (by simp [Node.operands])) hbetween).bind
            fun second after _ _ hafter hsecond => ?_
          exact onlyAdds_calculate hclasses ih operator first hafter hsecond
      | connective word left right =>
          cases word with
          | or =>
              refine onlyAdds_condition ih (hnode.operand (by simp [Node.operands])) hstate
                fun answer between _ hbetween => ?_
              split
              · exact onlyAdds_makeFlag _ hbetween
              · exact onlyAdds_condition ih (hnode.operand (by simp [Node.operands])) hbetween
                  fun answer after _ hafter => onlyAdds_makeFlag _ hafter
          | and =>
              refine onlyAdds_condition ih (hnode.operand (by simp [Node.operands])) hstate
                fun answer between _ hbetween => ?_
              split
              · exact onlyAdds_condition ih (hnode.operand (by simp [Node.operands])) hbetween
                  fun answer after _ hafter => onlyAdds_makeFlag _ hafter
              · exact onlyAdds_makeFlag _ hbetween
      | negation operand =>
          exact onlyAdds_condition ih (hnode.operand (by simp [Node.operands])) hstate
            fun answer after _ hafter => onlyAdds_makeFlag _ hafter
      | comparison relation left right =>
          refine (ih (hnode.operand (by simp [Node.operands])) hstate).bind
            fun first between _ _ hbetween _ => ?_
          refine (ih (hnode.operand (by simp [Node.operands])) hbetween).bind
            fun second after _ _ hafter hsecond => ?_
          refine (onlyAdds_compare hclasses ih relation first hafter hsecond).bind
            fun answer last _ _ hlast _ => ?_
          exact onlyAdds_makeFlag _ hlast
      | stringify operand =>
          refine (ih (hnode.operand (by simp [Node.operands])) hstate).bind
            fun value found _ _ hfound _ => ?_
          refine (onlyAdds_display hclasses ih fuel value hfound).bind
            fun text after _ _ hafter _ => ?_
          exact onlyAdds_makeText _ hafter
      | call receiver name arguments =>
          exact onlyAdds_callMethod hclasses ih name (hnode.operand List.mem_cons_self)
            (fun argument hmem => hnode.operand (List.mem_cons_of_mem _ hmem)) hstate
      | create cls arguments =>
          exact onlyAdds_construct hclasses ih cls (fun argument hmem => hnode.operand hmem) hstate
      | assign name value =>
          refine (ih (hnode.operand (by simp [Node.operands])) hstate).bind
            fun handle ready _ _ hready hhandle => ?_
          refine (onlyAdds_assign name hready hhandle).bind fun _ after _ hmore hafter _ => ?_
          exact .pure hafter (hhandle.mono hmore)
      | assignField object field value =>
          exact onlyAdds_setField ih field (hnode.operand (by simp [Node.operands]))
            (hnode.operand (by simp [Node.operands])) hstate
      | print arguments =>
          refine (onlyAdds_printLine hclasses ih fuel (fun argument hmem => hnode.operand hmem)
            hstate).bind fun _ after _ _ hafter _ => ?_
          exact .pure hafter trivial
      | block statements =>
          exact onlyAdds_sequence ih (fun statement hmem => hnode.branch hmem) hstate
      | giveBack value =>
          refine (ih (hnode.operand (by simp [Node.operands])) hstate).bind
            fun handle after _ _ hafter hhandle => ?_
          exact .pure hafter hhandle
      | body block => exact onlyAdds_finish ih (hnode.branch (by simp [Node.branches])) hstate
      | ifThen condition consequent =>
          refine onlyAdds_condition ih (hnode.operand (by simp [Node.operands])) hstate
            fun answer after _ hafter => ?_
          split
          · exact ih (hnode.branch (by simp [Node.branches])) hafter
          · exact .pure hafter trivial
      | ifThenElse condition consequent alternative =>
          refine onlyAdds_condition ih (hnode.operand (by simp [Node.operands])) hstate
            fun answer after _ hafter => ?_
          split
          · exact ih (hnode.branch (by simp [Node.branches])) hafter
          · exact ih (hnode.branch (by simp [Node.branches])) hafter
      | classDefinition cls =>
          have hcls : (Handle.own (.ofClass cls)).IsIn objects := nofun
          refine (onlyAdds_assign (classes.nameOf cls) hstate hcls).bind
            fun _ after _ _ hafter _ => ?_
          exact .pure hafter trivial

end Offside.Run
