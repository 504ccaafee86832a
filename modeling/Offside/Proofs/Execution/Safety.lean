import Offside.Execution.Node
import Offside.Proofs.Execution.Validity
import Offside.Proofs.Tree.Statement

/-!
# Running keeps states sound

`Run.Safe classes computation good state` says how a computation may end from a state.
If it gives a value, the value is `good`, and if it stops early, the reason is one that a
program can cause (`Stop.IsLegitimate`); either way the state that it leaves is sound and
has at least as many instances.  `Safe.bind` puts computations in sequence, and every
computation of the language has one lemma about it.

The computations take `run`, which runs nodes.  `Obeys` is what they need to know about
it: running a statement gives a valid value, or inside a method a valid value on its way
out (`Outcome`).  `execute_obeys` shows this of every amount of fuel, by induction on the
fuel.
-/

namespace Offside

/-- A reason to stop that a program can cause: nothing is asked of a value on its way out
of a method, no program returns, and only a number without a text is unwritable. -/
def Stop.IsLegitimate : Stop → Prop
  | fault cause => cause ≠ .returnOutsideMethod
  | @unwritable value _ => Decimal.write? value = none
  | strayReturn => False
  | outOfFuel => True

namespace Run

/-! ## How a computation may end -/

/-- A computation ends with a good value or for a legitimate reason, and with a sound state
either way. -/
def Ends (classes : Classes) (before : State) {α : Type} (good : α → Heap → Prop) :
    EStateM.Result Stop State α → Prop
  | .ok value after => before.heap.instances.size ≤ after.heap.instances.size ∧
      after.IsSound classes ∧ good value after.heap
  | .error reason after => before.heap.instances.size ≤ after.heap.instances.size ∧
      after.IsSound classes ∧ reason.IsLegitimate

/-- Whatever the computation does from this state, it ends in such a way. -/
def Safe (classes : Classes) {α : Type} (computation : Run α) (good : α → Heap → Prop)
    (state : State) : Prop :=
  Ends classes state good (computation state)

/-- Any value is good enough. -/
def anything {α : Type} (_ : α) (_ : Heap) : Prop :=
  True

/-- A value is good if it is valid. -/
def valid (classes : Classes) (value : Handle) (heap : Heap) : Prop :=
  value.IsValid classes heap

/-- Values are good if all of them are valid. -/
def allValid (classes : Classes) (values : List Handle) (heap : Heap) : Prop :=
  ∀ value ∈ values, value.IsValid classes heap

/-- What running a statement may give: a valid value or, inside a method, a valid value on
its way out. -/
def Outcome (classes : Classes) (inMethod : Bool) (value : Handle) (heap : Heap) : Prop :=
  value.IsValid classes heap ∨
    inMethod = true ∧ ∃ inner, value = .returned inner ∧ inner.IsValid classes heap

variable {classes : Classes} {α β : Type} {state : State}

theorem allValid_nil (heap : Heap) : allValid classes [] heap := by
  intro value hvalue
  cases hvalue

theorem allValid_cons {value : Handle} {values : List Handle} {heap : Heap}
    (hvalue : value.IsValid classes heap) (hvalues : allValid classes values heap) :
    allValid classes (value :: values) heap := by
  intro found hfound
  rcases List.mem_cons.mp hfound with rfl | hmem
  · exact hvalue
  · exact hvalues found hmem

theorem Safe.pure {value : α} {good : α → Heap → Prop} (hstate : state.IsSound classes)
    (hgood : good value state.heap) : Safe classes (Pure.pure value) good state :=
  ⟨Nat.le_refl _, hstate, hgood⟩

theorem Safe.bind {first : Run α} {next : α → Run β} {good : α → Heap → Prop}
    {better : β → Heap → Prop} (hfirst : Safe classes first good state)
    (hnext : ∀ value after, state.heap.instances.size ≤ after.heap.instances.size →
      after.IsSound classes → good value after.heap → Safe classes (next value) better after) :
    Safe classes (first >>= next) better state := by
  unfold Safe at hfirst
  show Ends classes state better (EStateM.bind first next state)
  unfold EStateM.bind
  cases hresult : first state with
  | error reason after =>
      rw [hresult] at hfirst
      exact hfirst
  | ok value after =>
      rw [hresult] at hfirst
      -- what follows starts in a sound state, with at least as many instances
      obtain ⟨hsize, hsound, hgood⟩ := hfirst
      have hrest := hnext value after hsize hsound hgood
      unfold Safe at hrest
      show Ends classes state better (next value after)
      cases hlater : next value after with
      | ok other last =>
          rw [hlater] at hrest
          exact ⟨Nat.le_trans hsize hrest.1, hrest.2⟩
      | error reason last =>
          rw [hlater] at hrest
          exact ⟨Nat.le_trans hsize hrest.1, hrest.2⟩

theorem Safe.weaken {computation : Run α} {good better : α → Heap → Prop}
    (h : Safe classes computation good state)
    (himp : ∀ value heap, good value heap → better value heap) :
    Safe classes computation better state := by
  unfold Safe at h ⊢
  cases hresult : computation state with
  | ok value after =>
      rw [hresult] at h
      exact ⟨h.1, h.2.1, himp value after.heap h.2.2⟩
  | error reason after =>
      rw [hresult] at h
      exact h

theorem Safe.of_ok {computation : Run α} {good : α → Heap → Prop} {value : α}
    {after : State} (h : Safe classes computation good state)
    (hresult : computation state = .ok value after) :
    after.IsSound classes ∧ good value after.heap := by
  unfold Safe at h
  rw [hresult] at h
  exact h.2

theorem Safe.of_error {computation : Run α} {good : α → Heap → Prop} {reason : Stop}
    {after : State} (h : Safe classes computation good state)
    (hresult : computation state = .error reason after) :
    after.IsSound classes ∧ reason.IsLegitimate := by
  unfold Safe at h
  rw [hresult] at h
  exact h.2

theorem safe_fail {fault : RunFault} {good : α → Heap → Prop} (hstate : state.IsSound classes)
    (hfault : fault ≠ .returnOutsideMethod) : Safe classes (fail fault) good state :=
  ⟨Nat.le_refl _, hstate, hfault⟩

theorem safe_stop {reason : Stop} {good : α → Heap → Prop} (hstate : state.IsSound classes)
    (hreason : reason.IsLegitimate) : Safe classes (stop reason) good state :=
  ⟨Nat.le_refl _, hstate, hreason⟩

/-! ## Asking a valid value -/

section

variable {value : Handle} {heap : Heap} (h : value.IsValid classes heap)
include h

/-- A valid value always answers. -/
theorem inspect_eq : inspect value = Pure.pure value.object? := by
  cases value with
  | empty => rfl
  | holding object owning => rfl
  | returned inner => exact False.elim h

theorem instanceOf?_eq : instanceOf? value = Pure.pure value.instance? := by
  unfold instanceOf?
  rw [inspect_eq h]
  rfl

theorem truth_eq : truth value = Pure.pure (value.object?.any Object.isTrue) := by
  unfold truth
  rw [inspect_eq h]
  rfl

theorem lt_size_of_instance? {id : InstanceId} (hid : value.instance? = some id) :
    id < heap.instances.size := by
  cases value with
  | empty => cases hid
  | returned inner => cases hid
  | holding object owning =>
      cases object with
      | ofInstance found =>
          cases hid
          exact h
      | number | text | flag | ofClass => cases hid

theorem lt_size_of_object? {id : InstanceId} (hid : value.object? = some (.ofInstance id)) :
    id < heap.instances.size := by
  apply lt_size_of_instance? h
  unfold Handle.instance?
  rw [hid]
  rfl

end

/-- A valid value has not left a method. -/
theorem isValid_cases {value : Handle} {heap : Heap} (h : value.IsValid classes heap) :
    value = .empty ∨ ∃ object owning, value = .holding object owning := by
  cases value with
  | empty => exact .inl rfl
  | holding object owning => exact .inr ⟨object, owning, rfl⟩
  | returned inner => exact False.elim h

/-! ## Scopes, fields and new objects -/

theorem safe_write (text : String) (hstate : state.IsSound classes) :
    Safe classes (write text) anything state :=
  ⟨Nat.le_refl _, ⟨hstate.heap, hstate.scope⟩, trivial⟩

theorem safe_assign (name : String) {value : Handle} (hstate : state.IsSound classes)
    (hvalue : value.IsValid classes state.heap) : Safe classes (assign name value) anything state :=
  ⟨Nat.le_refl _, ⟨hstate.heap, hstate.scope.set name hvalue⟩, trivial⟩

/-- Binding a field of an instance leaves a state sound. -/
theorem isSound_setField (hstate : state.IsSound classes) (id : InstanceId) (name : String)
    {value : Handle} (hvalue : value.IsValid classes state.heap) :
    ({ state with heap := state.heap.setField id name value } : State).IsSound classes := by
  have hsize := Nat.le_of_eq (Heap.size_setField state.heap id name value).symm
  exact ⟨hstate.heap.setField id name hvalue, hstate.scope.mono (Nat.le_refl _) hsize⟩

theorem safe_assignField (id : InstanceId) (name : String) {value : Handle}
    (hstate : state.IsSound classes) (hvalue : value.IsValid classes state.heap) :
    Safe classes (assignField id name value) anything state :=
  ⟨Nat.le_of_eq (Heap.size_setField ..).symm, isSound_setField hstate id name hvalue, trivial⟩

/-- A number, a text or a flag is valid wherever it is made. -/
theorem safe_make {build : Origin → Object} (hstate : state.IsSound classes)
    (hbuild : ∀ origin heap, (build origin).IsValid classes heap) :
    Safe classes (make build) (valid classes) state :=
  ⟨Nat.le_refl _, ⟨hstate.heap, hstate.scope⟩, hbuild _ _⟩

theorem safe_makeNumber (value : Int) (hstate : state.IsSound classes) :
    Safe classes (makeNumber value) (valid classes) state :=
  safe_make hstate fun _ _ => trivial

theorem safe_makeText (content : String) (hstate : state.IsSound classes) :
    Safe classes (makeText content) (valid classes) state :=
  safe_make hstate fun _ _ => trivial

theorem safe_makeFlag (value : Bool) (hstate : state.IsSound classes) :
    Safe classes (makeFlag value) (valid classes) state :=
  safe_make hstate fun _ _ => trivial

theorem safe_create {cls : ClassId} (hstate : state.IsSound classes)
    (hcls : cls < classes.count) :
    Safe classes (create cls) (fun id heap => id < heap.instances.size) state := by
  have hsize := Heap.size_create state.heap cls
  refine ⟨?_, ⟨hstate.heap.create hcls, hstate.scope.mono (Nat.le_refl _) ?_⟩, ?_⟩
  · show state.heap.instances.size ≤ (state.heap.create cls).2.instances.size
    rw [hsize]
    exact Nat.le_succ _
  · show state.heap.instances.size ≤ (state.heap.create cls).2.instances.size
    rw [hsize]
    exact Nat.le_succ _
  · show state.heap.instances.size < (state.heap.create cls).2.instances.size
    rw [hsize]
    exact Nat.lt_succ_self _

theorem safe_readField (id : InstanceId) (name : String) (hstate : state.IsSound classes) :
    Safe classes (readField id name) (valid classes) state := by
  unfold Safe readField
  cases hfield : (state.heap.fields id).get? name with
  | some value => exact ⟨Nat.le_refl _, hstate, (hstate.heap.fields id).get? hfield⟩
  | none =>
      -- a field that is missing is made, and is empty
      have hempty : Handle.empty.IsValid classes state.heap := trivial
      exact ⟨Nat.le_of_eq (Heap.size_setField ..).symm, isSound_setField hstate id name hempty,
        trivial⟩

theorem safe_follow {value : Handle} (fields : List String) (hstate : state.IsSound classes)
    (hvalue : value.IsValid classes state.heap) :
    Safe classes (follow value fields) (valid classes) state := by
  induction fields generalizing value state with
  | nil => exact .pure hstate hvalue
  | cons field fields ih =>
      rw [follow, instanceOf?_eq hvalue, pure_bind]
      cases value.instance? with
      | none => exact safe_fail hstate nofun
      | some id =>
          apply (safe_readField id field hstate).bind
          intro found after _ hafter hfound
          exact ih hafter hfound

theorem safe_lookup (name : String) (fields : List String) (hstate : state.IsSound classes) :
    Safe classes (lookup name fields) (valid classes) state := by
  cases hvalue : state.scope.get? name with
  | none =>
      have hfail : lookup name fields state = fail (.unknownVariable name) state := by
        unfold lookup
        rw [hvalue]
      unfold Safe
      rw [hfail]
      exact ⟨Nat.le_refl _, hstate, nofun⟩
  | some value =>
      have hfollow : lookup name fields state = follow value fields state := by
        unfold lookup
        rw [hvalue]
      unfold Safe
      rw [hfollow]
      exact safe_follow fields hstate (hstate.scope.get? hvalue)

end Run

end Offside
